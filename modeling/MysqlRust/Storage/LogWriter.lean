import MysqlRust.Storage.LogOpen

/-! # The log writer under failing writes

The writer writes the framed records of a batch with one call and acknowledges all of them with
its result. A failed call may leave any part of its bytes in the file.
-/
namespace MysqlRust

open List Outcome

inductive SyncPolicy where
  | always
  | never
  deriving DecidableEq, Repr

inductive Io where
  | done
  | writeFailed (written : Nat) (message : String)
  | syncFailed (message : String)
  deriving DecidableEq, Repr

def Io.reached (framed : List UInt8) : Io → List UInt8
  | .done => framed
  | .writeFailed written _ => framed.take written
  | .syncFailed _ => framed

def Log.writeFramedBatch (policy : SyncPolicy) (file framed : List UInt8) (io : Io) :
    List UInt8 × Result Unit :=
  (file ++ io.reached framed, match io with
    | .done => .ok ()
    | .writeFailed _ message => .err (.io message)
    | .syncFailed message => if policy = .always then .err (.io message) else .ok ())

@[simp] theorem writeFramedBatch_fst (policy : SyncPolicy) (file framed : List UInt8) (io : Io) :
    (Log.writeFramedBatch policy file framed io).1 = file ++ io.reached framed := rfl

theorem writeFramedBatch_ne_panic (policy : SyncPolicy) (file framed : List UInt8) (io : Io) :
    (Log.writeFramedBatch policy file framed io).2 ≠ .panic := by
  cases io with
  | done => nofun
  | writeFailed n message => nofun
  | syncFailed message =>
    simp only [Log.writeFramedBatch]
    split <;> nofun

def ackOf : Result Unit → Result Unit
  | .ok () => .ok ()
  | .err e => .err (.io e.display)
  | .panic => .panic

def LogWriter.run (policy : SyncPolicy) (file : List UInt8) :
    List (List Entry × Io) → List UInt8 × List (Entry × Result Unit)
  | [] => (file, [])
  | (batch, io) :: rest =>
    let (file, result) := Log.writeFramedBatch policy file (logBytes batch) io
    let (final, acks) := LogWriter.run policy file rest
    (final, batch.map (fun e => (e, ackOf result)) ++ acks)

def acked (acks : List (Entry × Result Unit)) : List Entry :=
  (acks.filter fun a => a.2 = .ok ()).map Prod.fst

def Whole (file : List UInt8) : Prop := ∃ ps es, Verified ps es ∧ file = frames ps

def BehindWhole (file : List UInt8) (batch : List Entry) (io : Io) : Prop :=
  io.reached (logBytes batch) = [] ∨ Whole file

def WrittenBehindWhole (policy : SyncPolicy) (file : List UInt8) : List (List Entry × Io) → Prop
  | [] => True
  | (batch, io) :: rest => BehindWhole file batch io ∧
    WrittenBehindWhole policy (Log.writeFramedBatch policy file (logBytes batch) io).1 rest

section Recovery
variable {ps : List (List UInt8)} {fs : List Entry} {io : Io}
variable {es : List Entry} {file : List UInt8}

def Recovers (file : List UInt8) (es : List Entry) : Prop :=
  ∃ ps tail, Verified ps es ∧ TornTail tail ∧ file = frames ps ++ tail

theorem Recovers.open_eq {σ : Type} (h : Recovers file es) (apply : σ → Entry → Result σ)
    (init : σ) :
    ∃ file', Log.open apply init (some file) =
      es.foldlM apply init >>= fun s => .ok (s, file') := by
  obtain ⟨ps, tail, hv, ht, rfl⟩ := h
  exact ⟨frames ps, open_verified_torn init hv ht⟩

theorem Verified.append {qs : List (List UInt8)} (h : Verified ps es) (h' : Verified qs fs) :
    Verified (ps ++ qs) (es ++ fs) := rel_append h h'

theorem Recovers.of_whole (h : Recovers file es) (hw : Whole file) :
    ∃ ps, Verified ps es ∧ file = frames ps := by
  obtain ⟨ps, tail, hv, ht, rfl⟩ := h
  obtain ⟨qs, fs, hq, heq⟩ := hw
  have hfold : ∀ gs : List Entry, gs.foldlM (fun _ _ => (.ok () : Result Unit)) () = .ok () :=
    fun gs => foldlM_pure
  -- both descriptions say what opening leaves on disk
  have hopen : Log.open (fun (_ : Unit) _ => .ok ()) () (some (frames ps ++ tail)) =
      es.foldlM (fun _ _ => .ok ()) () >>= fun u => .ok (u, frames ps) :=
    open_verified_torn () hv ht
  rw [heq, open_verified () hq, hfold, hfold] at hopen
  simp only [ok_bind, ok.injEq, Prod.mk.injEq, true_and] at hopen
  exact ⟨ps, hv, heq.trans hopen⟩

theorem Recovers.append {tail : List UInt8} (hv : Verified ps es) (hfs : Framable fs)
    (ht : TornTail tail) : Recovers (frames ps ++ (logBytes fs ++ tail)) (es ++ fs) :=
  ⟨ps ++ fs.map Entry.encode, tail, hv.append hfs.verified, ht, by simp [logBytes]⟩

theorem reached_of_ok {policy : SyncPolicy} {framed : List UInt8}
    (h : (Log.writeFramedBatch policy file framed io).2 = .ok ()) : io.reached framed = framed := by
  cases io with
  | done => rfl
  | writeFailed written message => simp [Log.writeFramedBatch] at h
  | syncFailed message => rfl

theorem reached_prefix_framed (framed : List UInt8) (io : Io) : io.reached framed <+: framed := by
  cases io with
  | done => exact prefix_rfl
  | writeFailed written message => exact take_prefix written framed
  | syncFailed message => exact prefix_rfl

theorem logBytes_eq_nil (h : logBytes es = []) : es = [] := by
  cases es with
  | nil => rfl
  | cons e es =>
    have := congrArg List.length h
    simp at this

/-- What a batch leaves behind replays to more of its own records, to all of them when it
was acknowledged. -/
theorem writeFramedBatch_recovers (policy : SyncPolicy) {batch : List Entry}
    (hfile : Recovers file es) (hbatch : Framable batch) (hstep : BehindWhole file batch io) :
    ∃ written, written <+: batch ∧
      ((Log.writeFramedBatch policy file (logBytes batch) io).2 = .ok () → written = batch) ∧
      Recovers (Log.writeFramedBatch policy file (logBytes batch) io).1 (es ++ written) := by
  rcases hstep with hnone | hwhole
  · refine ⟨[], nil_prefix, fun hok => ?_, ?_⟩
    · rw [reached_of_ok hok] at hnone
      exact (logBytes_eq_nil hnone).symm
    · simpa [hnone] using hfile
  · obtain ⟨ps, hv, rfl⟩ := hfile.of_whole hwhole
    by_cases hall : io.reached (logBytes batch) = logBytes batch
    · refine ⟨batch, prefix_rfl, fun _ => rfl, ?_⟩
      simpa [hall] using Recovers.append hv hbatch tornTail_nil
    · obtain ⟨written, rest, tail, rfl, hcut, ht, -⟩ :=
        logBytes_cut hbatch (reached_prefix_framed (logBytes batch) io)
      have hwritten : Framable written := fun e he => hbatch e (mem_append_left rest he)
      refine ⟨written, prefix_append _ _, fun hok => absurd (reached_of_ok hok) hall, ?_⟩
      rw [writeFramedBatch_fst, hcut]
      exact Recovers.append hv hwritten ht

@[simp] theorem acked_append (as bs : List (Entry × Result Unit)) :
    acked (as ++ bs) = acked as ++ acked bs := by
  simp [acked]

theorem acked_batch (batch : List Entry) (r : Result Unit) :
    acked (batch.map fun e => (e, ackOf r)) = if r = .ok () then batch else [] := by
  cases r <;> simp [acked, ackOf, Function.comp_def, filter_map]

/-- A run of batches keeps every acknowledged record recoverable, in order. -/
theorem LogWriter.run_recovers (policy : SyncPolicy) {batches : List (List Entry × Io)}
    (hfile : Recovers file es) (hbatches : ∀ b ∈ batches, Framable b.1)
    (hrun : WrittenBehindWhole policy file batches) :
    ∃ written, (acked (LogWriter.run policy file batches).2).Sublist written ∧
      written.Sublist (batches.flatMap Prod.fst) ∧
      Recovers (LogWriter.run policy file batches).1 (es ++ written) := by
  induction batches generalizing file es with
  | nil => exact ⟨[], by simp [run, acked], by simp, by simpa [run] using hfile⟩
  | cons b rest ih =>
    obtain ⟨batch, io⟩ := b
    obtain ⟨first, hprefix, hok, hfirst⟩ := writeFramedBatch_recovers policy hfile
      (hbatches (batch, io) mem_cons_self) hrun.1
    obtain ⟨later, hacked, hlater, hfinal⟩ := ih hfirst
      (fun b hb => hbatches b (mem_cons_of_mem _ hb)) hrun.2
    refine ⟨first ++ later, ?_, ?_, ?_⟩
    · simp only [run, acked_append, acked_batch]
      refine List.Sublist.append ?_ hacked
      split
      · rename_i hr
        rw [hok hr]
      · exact nil_sublist _
    · exact hprefix.sublist.append hlater
    · simpa only [run, append_assoc] using hfinal

variable {σ : Type}

theorem open_recovers {apply : σ → Entry → Result σ} {init s : σ} {content : Option (List UInt8)}
    (h : Log.open apply init content = .ok (s, file)) :
    ∃ es, Recovers file es ∧ es.foldlM apply init = .ok s := by
  cases content with
  | none =>
    cases h
    exact ⟨[], ⟨[], [], .nil, tornTail_nil, rfl⟩, rfl⟩
  | some bytes =>
    obtain ⟨ps, es, hv, rfl, -, hfold⟩ := open_eq_ok init h
    exact ⟨es, ⟨ps, [], hv, tornTail_nil, by simp⟩, hfold⟩

/-- From a log that was opened, through any batches: the log opens again, and what it
replays beyond the first opening contains every acknowledged record in order. -/
theorem LogWriter.open_run (policy : SyncPolicy) (apply : σ → Entry → σ) {init s : σ}
    {content : Option (List UInt8)} {file : List UInt8}
    (hopen : Log.open (fun s e => .ok (apply s e)) init content = .ok (s, file))
    {batches : List (List Entry × Io)} (hbatches : ∀ b ∈ batches, Framable b.1)
    (hrun : WrittenBehindWhole policy file batches) :
    ∃ written file', (acked (LogWriter.run policy file batches).2).Sublist written ∧
      written.Sublist (batches.flatMap Prod.fst) ∧
      Log.open (fun s e => .ok (apply s e)) init (some (LogWriter.run policy file batches).1) =
        .ok (written.foldl apply s, file') := by
  obtain ⟨es, hfile, hs⟩ := open_recovers hopen
  obtain ⟨written, hacked, hsub, hfinal⟩ := run_recovers policy hfile hbatches hrun
  obtain ⟨file', hreopen⟩ := hfinal.open_eq (fun s e => .ok (apply s e)) init
  have hwritten : written.foldlM (fun s e => (.ok (apply s e) : Result σ)) s =
      .ok (written.foldl apply s) := foldlM_pure
  refine ⟨written, file', hacked, hsub, ?_⟩
  rw [hreopen, foldlM_append, hs, ok_bind, hwritten, ok_bind]

/-- A write that fails at once and an acknowledged one behind it. -/
theorem LogWriter.open_run_failures :
    ∃ written file', (acked (LogWriter.run .always [] [([.createDatabase "a"],
        .writeFailed 0 "no space"), ([.createDatabase "b"], .done)]).2).Sublist written ∧
      written.Sublist [.createDatabase "a", .createDatabase "b"] ∧
      Log.open (fun s e => .ok (s ++ [e])) [] (some (LogWriter.run .always []
        [([.createDatabase "a"], .writeFailed 0 "no space"), ([.createDatabase "b"], .done)]).1) =
        .ok (written.foldl (fun s e => s ++ [e]) [], file') := by
  have hopen : Log.open (fun s e => .ok (s ++ [e])) ([] : List Entry) none = .ok ([], []) := rfl
  exact LogWriter.open_run .always (fun s e => s ++ [e]) hopen (by decide)
    ⟨.inl rfl, .inr ⟨[], [], .nil, rfl⟩, trivial⟩

/-- One byte of a failed batch stays in front of the next, acknowledged batch: the log opens
successfully without the acknowledged record and is cut to nothing. -/
theorem LogWriter.run_acked_lost :
    acked (LogWriter.run .always [] [([.createDatabase "a"], .writeFailed 1 "no space"),
      ([.createDatabase "b"], .done)]).2 = [.createDatabase "b"] ∧
    Log.open (fun s e => .ok (s ++ [e])) [] (some (LogWriter.run .always []
      [([.createDatabase "a"], .writeFailed 1 "no space"), ([.createDatabase "b"], .done)]).1) =
      .ok ([], []) := by
  refine ⟨by decide, ?_⟩
  have hfile : (LogWriter.run .always [] [([.createDatabase "a"], .writeFailed 1 "no space"),
      ([.createDatabase "b"], .done)]).1 = 6 :: frameRecord (Entry.createDatabase "b").encode := by
    decide +kernel
  have hread : readOneRecord (6 :: frameRecord (Entry.createDatabase "b").encode) 0 15 =
      .ok (.tornTail, (6 :: frameRecord (Entry.createDatabase "b").encode).drop 8) := by
    decide +kernel
  rw [hfile, Log.open, show List.length _ = 15 by decide, replay_torn [] hread]
  rfl

end Recovery

end MysqlRust
