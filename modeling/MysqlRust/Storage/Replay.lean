import MysqlRust.Foundation.WriteAhead
import MysqlRust.Storage.LogOpen
import MysqlRust.Storage.StoreInvariants

/-! # Replay refines the live store

Calls run one after another, each to completion, on a store opened on an empty log.
Replaying the log they leave gives the live store, up to the values of the counters:
these are also moved by reservations, which are not logged.
-/
namespace MysqlRust

open Outcome

structure Live where
  store : Store
  log : List Entry

def Live.fresh : Live := ⟨Store.empty, []⟩

def execCall (l : Live) (c : Call) : Result (Live × Result Unit) :=
  match check l.store c with
  | .ok false => .ok (l, .ok ())
  | .err e => .ok (l, .err e)
  | .panic => .panic
  | .ok true =>
    match apply l.store c with
    | .ok store => .ok (⟨store, l.log ++ [c.entry]⟩, .ok ())
    | .err e => .ok (⟨l.store, l.log ++ [c.entry]⟩, .err e)
    | .panic => .panic

inductive Op where
  | call (c : Call)
  | nextAutoIncrement (table : String)
  deriving DecidableEq, Repr

def exec (l : Live) : Op → Result Live
  | .call c => Prod.fst <$> execCall l c
  | .nextAutoIncrement table =>
    match nextAutoIncrement l.store table with
    | .ok (store, _) => .ok { l with store }
    | .err _ => .ok l
    | .panic => .panic

theorem Store.Same.trans {s t u : Store} (h : s.Same t) (h' : t.Same u) : s.Same u := by
  refine ⟨fun name => ?_, h.databases.trans h'.databases⟩
  have h₁ := h.tables name
  have h₂ := h'.tables name
  generalize s.tables.lookup name = a, t.tables.lookup name = b, u.tables.lookup name = c at h₁ h₂ ⊢
  cases h₁ with
  | none =>
    cases h₂
    exact .none
  | some hab =>
    cases h₂ with
    | some hbc => exact .some (hab.trans hbc)

theorem respects_same : WriteAhead.Respects applyEntry Store.Same :=
  ⟨Store.Same.trans, fun e h => applyEntry_same h e⟩

/-- The log replays to the store once the queued records are applied. -/
abbrev Durable (log queue : List Entry) (s : Store) : Prop :=
  WriteAhead.Durable applyEntry Store.Same Store.empty log queue s

section Steps
variable {l : Live} {s s' : Store} {table : String} {v : Int64}

theorem nextAutoIncrement_same (h : nextAutoIncrement s table = .ok (s', v)) : s.Same s' := by
  obtain ⟨t, ht, h⟩ := bind_eq_ok.mp h
  obtain ⟨⟨idx, _⟩, hai, h⟩ := bind_eq_ok.mp h
  rw [okOr_eq_ok] at ht hai
  cases h
  refine ⟨fun name => ?_, rfl⟩
  by_cases heq : name = table
  · subst heq
    rw [lookup_setTable, ht]
    refine .some ⟨rfl, rfl, rfl, rfl, ?_⟩
    rw [hai]
    simp only [Option.map_some]
  · rw [lookup_setTable_of_ne s table _ heq]
    exact (Store.Same.refl s).tables name

/-- Reserving a number moves a counter and nothing else. -/
theorem nextAutoIncrement_eq_ok (hs : s.Wf) (h : nextAutoIncrement s table = .ok (s', v)) :
    s'.Wf ∧ s.Same s' := by
  have hsame := nextAutoIncrement_same h
  exact ⟨hs.same (fun _ _ => Table.Wf.same) hsame, hsame⟩

theorem nextAutoIncrement_ne_panic (s : Store) (table : String) :
    nextAutoIncrement s table ≠ .panic := by
  have h : (nextAutoIncrement s table).Post fun _ => True :=
    (okOr_post (P := fun _ => True) _ fun _ _ => trivial).bind fun _ _ =>
      (okOr_post (P := fun _ => True) _ fun _ _ => trivial).bind fun _ _ => trivial
  exact h.ne_panic

structure Live.Inv (l : Live) : Prop where
  wf : l.store.Wf
  durable : Durable l.log [] l.store

theorem Live.fresh_inv : Live.fresh.Inv :=
  ⟨all_empty, Store.empty, Store.empty, rfl, rfl, Store.Same.refl _⟩

theorem Live.Inv.log_apply (h : l.Inv) {c : Call} (hc : check l.store c = .ok true) :
    ∃ store, apply l.store c = .ok store ∧ Live.Inv ⟨store, l.log ++ [c.entry]⟩ := by
  obtain ⟨store, hstore, hentry, hwf⟩ := apply_of_check h.wf hc
  have hlogged := h.durable.append respects_same c.entry fun m hm => by
    cases hm
    exact ⟨store, hentry⟩
  obtain ⟨store', hstore', hdurable⟩ := hlogged.apply
  cases hentry.symm.trans hstore'
  exact ⟨store, hstore, hwf, hdurable⟩

theorem exec_inv (h : l.Inv) (op : Op) : ∃ l', exec l op = .ok l' ∧ l'.Inv := by
  cases op with
  | call c =>
    simp only [exec, execCall]
    cases hc : check l.store c with
    | ok go =>
      cases go with
      | false => exact ⟨l, rfl, h⟩
      | true =>
        obtain ⟨store, hstore, hinv⟩ := h.log_apply hc
        exact ⟨_, by simp only [hstore, map_ok], hinv⟩
    | err e => exact ⟨l, rfl, h⟩
    | panic => exact absurd hc (check_ne_panic h.wf c)
  | nextAutoIncrement table =>
    simp only [exec]
    cases hn : nextAutoIncrement l.store table with
    | ok p =>
      obtain ⟨hwf, hsame⟩ := nextAutoIncrement_eq_ok h.wf hn
      exact ⟨_, rfl, hwf, h.durable.change respects_same hsame⟩
    | err e => exact ⟨l, rfl, h⟩
    | panic => exact absurd hn (nextAutoIncrement_ne_panic _ _)

theorem run_inv (h : l.Inv) (ops : List Op) : ∃ l', ops.foldlM exec l = .ok l' ∧ l'.Inv := by
  induction ops generalizing l with
  | nil => exact ⟨l, rfl, h⟩
  | cons op ops ih =>
    obtain ⟨l₁, h₁, hinv⟩ := exec_inv h op
    obtain ⟨l₂, h₂, hinv₂⟩ := ih hinv
    exact ⟨l₂, by rw [List.foldlM_cons, h₁, ok_bind, h₂], hinv₂⟩

end Steps

theorem Durable.open {log : List Entry} {s : Store} (h : Durable log [] s) (hlog : Framable log) :
    ∃ r, Log.open applyEntry Store.empty (some (logBytes log)) = .ok (r, logBytes log) ∧
      r.Same s := by
  obtain ⟨r, hr, hsame⟩ := h.replayed
  refine ⟨r, ?_, hsame⟩
  rw [open_logBytes Store.empty hlog, hr, ok_bind]

theorem open_rows {log : List Entry} {name : String} {rows : List Row} (hlog : Framable log)
    (hrows : (fun r : Store => (r.tables.lookup name).map Table.rows) <$>
      log.foldlM applyEntry Store.empty = .ok (some rows)) :
    ∃ r, Log.open applyEntry Store.empty (some (logBytes log)) = .ok (r, logBytes log) ∧
      (r.tables.lookup name).map Table.rows = some rows := by
  obtain ⟨r, hr, hrows⟩ := map_eq_ok.mp hrows
  exact ⟨r, by rw [open_logBytes Store.empty hlog, hr, ok_bind], hrows⟩

/-- Every sequential history ends without a panic, and re-opening its log gives the tables
and databases of the live store. -/
theorem open_after_history (ops : List Op)
    (hlog : ∀ l, ops.foldlM exec Live.fresh = .ok l → Framable l.log) :
    ∃ l, ops.foldlM exec Live.fresh = .ok l ∧
      ∃ s, Log.open applyEntry Store.empty (some (logBytes l.log)) = .ok (s, logBytes l.log) ∧
        s.Same l.store := by
  obtain ⟨l, hl, hinv⟩ := run_inv Live.fresh_inv ops
  exact ⟨l, hl, hinv.durable.open (hlog l hl)⟩

/-- A table created, filled, refused a duplicate key, asked for a counter value and widened. -/
theorem open_after_history_alter :
    ∃ l, [Op.call (.createTable "t" [⟨"id", .int, false, true⟩] (some "id")),
        .call (.insertRow "t" [.int 7]), .call (.insertRows [("t", [.int 7])]),
        .nextAutoIncrement "t",
        .call (.alterTable "t" (.addColumn ⟨"n", .varchar, true, false⟩ false))].foldlM exec
        Live.fresh = .ok l ∧
      ∃ s, Log.open applyEntry Store.empty (some (logBytes l.log)) = .ok (s, logBytes l.log) ∧
        s.Same l.store := by
  apply open_after_history
  intro l hl
  have hlog : (Live.log <$> .ok l : Result (List Entry)) =
      .ok [.createTable "t" [⟨"id", .int, false, true⟩] (some "id"), .insertRow "t" [.int 7],
        .alterTable "t" (.addColumn ⟨"n", .varchar, true, false⟩ false)] := by
    rw [← hl]
    decide +kernel
  rw [map_ok, Outcome.ok.injEq] at hlog
  rw [hlog]
  decide

end MysqlRust
