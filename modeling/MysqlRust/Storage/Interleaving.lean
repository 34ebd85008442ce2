import Mathlib.Data.List.Perm.Subperm
import MysqlRust.Foundation.Runs
import MysqlRust.Storage.LogWriter
import MysqlRust.Storage.Replay

/-! # Interleaved calls

A call checks itself under the read lock, submits its record to the writer thread, and applies
itself under the write lock once the record is acknowledged. An `INSERT` holds the locks of its
tables from before its check until it returns; no other call takes a lock.
-/
namespace MysqlRust

open List Option

def Call.inserts : Call → List (String × Row)
  | .insertRow table row => [(table, row)]
  | .insertRows rows => rows
  | _ => []

def Call.creates : Call → Option String
  | .createTable name _ _ => some name
  | _ => none

def Call.alters : Call → Option String
  | .alterTable name _ => some name
  | _ => none

def Call.locks (c : Call) : List String := c.inserts.map Prod.fst

structure Sys where
  store : Store
  file : List UInt8
  /-- Calls that passed their check and have not been written. -/
  checked : List Call
  /-- Calls whose record is acknowledged and that have not been applied, oldest first. -/
  queue : List Call
  replies : List (Call × Result Unit)

def Sys.start (store : Store) (file : List UInt8) : Sys := ⟨store, file, [], [], []⟩

/-- No call is in progress. -/
def Sys.Quiescent (s : Sys) : Prop := s.checked = [] ∧ s.queue = []

/-- Another call in progress holds a lock that this one needs. -/
def Sys.Locked (s : Sys) (c : Call) : Prop := ∃ d ∈ s.checked ++ s.queue, ∃ n ∈ d.locks, n ∈ c.locks
  deriving Decidable

inductive Action where
  | check (c : Call)
  | write (batch : List Call) (io : Io)
  | apply (c : Call)
  | nextAutoIncrement (table : String)
  deriving DecidableEq, Repr

/-- One step of one connection or of the writer thread; `none` when it cannot be taken. -/
def Sys.step (policy : SyncPolicy) (s : Sys) : Action → Option Sys
  | .check c =>
    if s.Locked c then none
    else
      match check s.store c with
      | .ok true => some { s with checked := s.checked ++ [c] }
      | .ok false => some { s with replies := s.replies ++ [(c, .ok ())] }
      | .err e => some { s with replies := s.replies ++ [(c, .err e)] }
      | .panic => none
  | .write batch io =>
    if batch.Subperm s.checked ∧ batch ≠ [] then
      let (file, result) :=
        Log.writeFramedBatch policy s.file (logBytes (batch.map Call.entry)) io
      match ackOf result with
      | .ok () =>
        some { s with file, checked := s.checked.diff batch, queue := s.queue ++ batch }
      | .err e =>
        some { s with
          file
          checked := s.checked.diff batch
          replies := s.replies ++ batch.map fun c => (c, .err e) }
      | .panic => none
    else none
  | .apply c =>
    if c ∈ s.queue then
      match apply s.store c with
      | .ok store =>
        some { s with store, queue := s.queue.erase c, replies := s.replies ++ [(c, .ok ())] }
      | .err e => some { s with queue := s.queue.erase c, replies := s.replies ++ [(c, .err e)] }
      | .panic => none
    else none
  | .nextAutoIncrement table =>
    match nextAutoIncrement s.store table with
    | .ok (store, _) => some { s with store }
    | .err _ => some s
    | .panic => none

section
variable {policy : SyncPolicy} {s s' : Sys}

/-- A call is let through, has nothing to do, or is refused. -/
theorem step_check {c : Call} (h : s.step policy (.check c) = some s') : ¬ s.Locked c ∧
      (check s.store c = .ok true ∧ s' = { s with checked := s.checked ++ [c] } ∨
        check s.store c = .ok false ∧ s' = { s with replies := s.replies ++ [(c, .ok ())] } ∨
        ∃ e, s' = { s with replies := s.replies ++ [(c, .err e)] }) := by
  simp only [Sys.step] at h
  split at h
  · cases h
  · rename_i hlock
    refine ⟨hlock, ?_⟩
    split at h
    · rename_i hc
      exact .inl ⟨hc, (some.inj h).symm⟩
    · rename_i hc
      exact .inr (.inl ⟨hc, (some.inj h).symm⟩)
    · exact .inr (.inr ⟨_, (some.inj h).symm⟩)
    · cases h

/-- A batch is acknowledged or it fails as a whole; either way bytes reach the file. -/
theorem step_write {batch : List Call} {io : Io} (h : s.step policy (.write batch io) = some s') :
    batch.Subperm s.checked ∧
      ((Log.writeFramedBatch policy s.file (logBytes (batch.map Call.entry)) io).2 = .ok () ∧
          s' = { s with
            file := s.file ++ io.reached (logBytes (batch.map Call.entry))
            checked := s.checked.diff batch
            queue := s.queue ++ batch } ∨
        ∃ e, (Log.writeFramedBatch policy s.file (logBytes (batch.map Call.entry)) io).2 ≠ .ok () ∧
          s' = { s with
            file := s.file ++ io.reached (logBytes (batch.map Call.entry))
            checked := s.checked.diff batch
            replies := s.replies ++ batch.map fun c => (c, .err e) }) := by
  simp only [Sys.step] at h
  split at h
  · rename_i hsub
    refine ⟨hsub.1, ?_⟩
    cases hr : (Log.writeFramedBatch policy s.file (logBytes (batch.map Call.entry)) io).2 with
    | ok u =>
      simp only [hr, ackOf, some.injEq] at h
      exact .inl ⟨rfl, h.symm⟩
    | err e =>
      simp only [hr, ackOf, some.injEq] at h
      exact .inr ⟨_, by simp, h.symm⟩
    | panic => simp [hr, ackOf] at h
  · cases h

/-- An acknowledged call leaves the queue and is answered. -/
theorem step_apply {c : Call} (h : s.step policy (.apply c) = some s') : c ∈ s.queue ∧
      ((∃ store, apply s.store c = .ok store ∧
          s' = { s with store, queue := s.queue.erase c, replies := s.replies ++ [(c, .ok ())] }) ∨
        ∃ e, apply s.store c = .err e ∧
          s' = { s with queue := s.queue.erase c, replies := s.replies ++ [(c, .err e)] }) := by
  simp only [Sys.step] at h
  split at h
  · rename_i hc
    refine ⟨hc, ?_⟩
    split at h
    · rename_i store hstore
      exact .inl ⟨store, hstore, (some.inj h).symm⟩
    · rename_i e he
      exact .inr ⟨e, he, (some.inj h).symm⟩
    · cases h
  · cases h

theorem step_nextAutoIncrement {table : String}
    (h : s.step policy (.nextAutoIncrement table) = some s') :
    s' = s ∨ ∃ store v, nextAutoIncrement s.store table = .ok (store, v) ∧
      s' = { s with store } := by
  simp only [Sys.step] at h
  split at h
  · rename_i store v hn
    exact .inr ⟨store, v, hn, (some.inj h).symm⟩
  · exact .inl (some.inj h).symm
  · cases h

variable {c : Call} {log : List Entry} {file : List UInt8}

/-- A call that is in progress was so before the step, unless the step is its check. -/
theorem step_calls {a : Action} (h : s.step policy a = some s') (hc : c ∈ s'.checked ++ s'.queue) :
    c ∈ s.checked ++ s.queue ∨ a = .check c := by
  rw [mem_append] at hc ⊢
  cases a with
  | check d =>
    obtain ⟨-, ⟨-, rfl⟩ | ⟨-, rfl⟩ | ⟨e, rfl⟩⟩ := step_check h
    · simp only [mem_append, mem_singleton, Action.check.injEq, eq_comm] at hc ⊢
      tauto
    · exact .inl hc
    · exact .inl hc
  | write batch io =>
    obtain ⟨hsub, ⟨-, rfl⟩ | ⟨e, -, rfl⟩⟩ := step_write h
    · rcases hc with hc | hc
      · exact .inl (.inl (diff_subset _ _ hc))
      · exact .inl ((mem_append.mp hc).symm.imp_left (hsub.subset ·))
    · exact .inl (hc.imp_left (diff_subset _ _ ·))
  | apply d =>
    obtain ⟨-, ⟨store, -, rfl⟩ | ⟨e, -, rfl⟩⟩ := step_apply h
    · exact .inl (hc.imp_right mem_of_mem_erase)
    · exact .inl (hc.imp_right mem_of_mem_erase)
  | nextAutoIncrement table =>
    obtain rfl | ⟨store, v, -, rfl⟩ := step_nextAutoIncrement h
    · exact .inl hc
    · exact .inl hc

def Sys.enqueue (s : Sys) (c : Call) : Sys :=
  { s with
    file := s.file ++ frameRecord c.entry.encode
    checked := s.checked.erase c
    queue := s.queue ++ [c] }

theorem enqueue_perm (hc : c ∈ s.checked) :
    ((s.enqueue c).checked ++ (s.enqueue c).queue).Perm (s.checked ++ s.queue) := by
  rw [Sys.enqueue, ← append_assoc]
  exact (perm_append_singleton c _).trans ((perm_cons_erase hc).append_right s.queue).symm

theorem enqueue_batch (s : Sys) (batch : List Call) : { s with
      file := s.file ++ logBytes (batch.map Call.entry)
      checked := s.checked.diff batch
      queue := s.queue ++ batch } = batch.foldl Sys.enqueue s := by
  induction batch generalizing s with
  | nil => simp
  | cons c batch ih =>
    rw [foldl_cons, ← ih]
    simp [Sys.enqueue, diff_cons]

/-- A written batch joins the queue call by call. -/
theorem write_invariant {P : Sys → Prop} {policy : SyncPolicy} {s s' : Sys} {batch : List Call}
    (hs : P s) (hwrite : s.step policy (.write batch .done) = some s')
    (hstep : ∀ u c rest, P u → u.store = s.store → c ∈ u.checked → c ∈ batch →
      u.queue ++ c :: rest = s.queue ++ batch → P (u.enqueue c)) : P s' := by
  obtain ⟨hsub, ⟨-, rfl⟩ | ⟨e, hfail, -⟩⟩ := step_write hwrite
  · have hall : ∀ (rest : List Call) (u : Sys), P u → u.store = s.store →
        rest.Subperm u.checked → rest ⊆ batch → u.queue ++ rest = s.queue ++ batch →
        P (rest.foldl Sys.enqueue u) := by
      intro rest
      induction rest with
      | nil => exact fun u hu _ _ _ _ => hu
      | cons c rest ih =>
        intro u hu hstore hsub hbatch hqueue
        have hc : c ∈ u.checked := hsub.subset mem_cons_self
        refine ih (u.enqueue c) (hstep u c rest hu hstore hc (hbatch mem_cons_self) hqueue)
          hstore ?_ (fun d hd => hbatch (mem_cons_of_mem c hd))
          (by simpa [Sys.enqueue] using hqueue)
        exact (subperm_cons c).mp (hsub.trans (perm_cons_erase hc).subperm)
    exact enqueue_batch s batch ▸ hall batch s hs rfl hsub (List.Subset.refl batch) rfl
  · exact absurd rfl hfail

def Holds (file : List UInt8) (log : List Entry) : Prop := ∃ ps, Verified ps log ∧ file = frames ps

theorem Holds.enqueue (h : Holds s.file log) (hc : c.entry.encode.length < 2 ^ 32) :
    Holds (s.enqueue c).file (log ++ [c.entry]) := by
  obtain ⟨ps, hv, hfile⟩ := h
  have hframable : Framable [c.entry] := by simpa [Framable] using hc
  exact ⟨ps ++ [c.entry.encode], hv.append hframable.verified, by simp [Sys.enqueue, hfile]⟩

theorem Holds.open_eq (h : Holds file log) : Log.open applyEntry Store.empty (some file) =
      log.foldlM applyEntry Store.empty >>= fun r => .ok (r, file) := by
  obtain ⟨ps, hv, rfl⟩ := h
  exact open_verified Store.empty hv

theorem holds_of_open {content : Option (List UInt8)} {st : Store}
    (h : Log.open applyEntry Store.empty content = .ok (st, file)) :
    ∃ log, Holds file log ∧ log.foldlM applyEntry Store.empty = .ok st := by
  cases content with
  | none =>
    cases h
    exact ⟨[], ⟨[], .nil, rfl⟩, rfl⟩
  | some bytes =>
    obtain ⟨ps, log, hv, hfile, -, hfold⟩ := open_eq_ok Store.empty h
    exact ⟨log, ⟨ps, hv, hfile⟩, hfold⟩

end

end MysqlRust
