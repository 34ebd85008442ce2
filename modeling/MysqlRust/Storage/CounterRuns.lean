import MysqlRust.Storage.AlterFrame
import MysqlRust.Storage.Counters

/-! # Counters over whole runs

The counter of a table stays above the integers stored in its column and hands out each value
once, as long as it stays within the 64-bit range and no `ALTER TABLE` rebuilds it from rows
that lack a value handed out before.
-/
namespace MysqlRust

open Outcome List Option

section
variable {s s' : Store}

theorem nextAutoIncrement_eq_iff {table : String} {v : Int64} :
    nextAutoIncrement s table = .ok (s', v) ↔ ∃ t i, s.tables.lookup table = some t ∧
      t.autoIncrement = some (i, v) ∧
      s' = s.setTable table { t with autoIncrement := some (i, v + 1) } := by
  constructor
  · intro h
    obtain ⟨t, ht, h⟩ := bind_eq_ok.mp h
    obtain ⟨⟨i, next⟩, hauto, h⟩ := bind_eq_ok.mp h
    cases h
    exact ⟨t, i, okOr_eq_ok.mp ht, okOr_eq_ok.mp hauto, rfl⟩
  · rintro ⟨t, i, ht, hauto, rfl⟩
    simp [nextAutoIncrement, ht, hauto, okOr]

theorem applyEntry_of_apply {c : Call} (h : apply s c = .ok s') :
    applyEntry s c.entry = .ok s' := by
  rw [applyEntry_entry s c, h, settle]
  rintro name columns primaryKey rfl hname
  simp [apply, hname] at h

def Store.CounterBelowMax (s : Store) (table : String) : Prop :=
  ∀ t ∈ s.tables.lookup table, ∀ p ∈ t.autoIncrement, p.2 ≠ Int64.maxValue
  deriving Decidable

def TableSchema.LeavesRoom (schema : TableSchema) (row : Row) : Prop :=
  ∀ i ∈ schema.counterIndex, row[i]? ≠ some (.int Int64.maxValue)
  deriving Decidable

/-- No row that replaying the record pushes carries the largest integer there. An `ALTER
TABLE` pushes all rows of its table, changed. -/
def Store.LeavesRoom (s : Store) : Entry → Prop
  | .insertRow table row => ∀ t ∈ s.tables.lookup table, t.schema.LeavesRoom row
  | .transaction rows => ∀ p ∈ rows, ∀ t ∈ s.tables.lookup p.1, t.schema.LeavesRoom p.2
  | .alterTable table change => ∀ t ∈ s.tables.lookup table, ∀ row ∈ t.rows,
    ∀ row' ∈ (change.alteredRow t.schema row).toOption,
      (change.alteredSchema t.schema).LeavesRoom row'
  | _ => True

instance (s : Store) (e : Entry) : Decidable (s.LeavesRoom e) := by
  unfold Store.LeavesRoom
  split <;> infer_instance

def Table.Roomy (t : Table) : Prop := ∀ row ∈ t.rows, t.schema.LeavesRoom row

theorem pushRows_roomy {rows : List (String × Row)} (hs : s.All Table.Roomy)
    (hguard : s.LeavesRoom (.transaction rows)) (h : rows.foldlM pushRow s = .ok s') :
    s'.All Table.Roomy := by
  intro name t' ht'
  obtain ⟨hnone, hsome⟩ := pushRows_lookup h name
  cases ht : s.tables.lookup name with
  | none => cases ht'.symm.trans (hnone ht)
  | some t =>
    obtain ⟨u, hpush, hu⟩ := hsome t ht
    cases ht'.symm.trans hu
    obtain ⟨hschema, hrows⟩ := pushAll_eq_ok hpush
    intro row hrow
    rw [hschema]
    rcases mem_append.mp (hrows ▸ hrow) with hrow | hrow
    · exact hs name t ht row hrow
    · obtain ⟨p, hp, rfl⟩ := mem_map.mp hrow
      obtain ⟨hmem, heq⟩ := mem_filter.mp hp
      exact hguard p hmem t (of_decide_eq_true heq ▸ ht)

theorem applyEntry_roomy {e : Entry} (hs : s.All Table.Roomy) (hguard : s.LeavesRoom e)
    (h : applyEntry s e = .ok s') : s'.All Table.Roomy := by
  cases e with
  | createTable table columns primaryKey =>
    cases h
    exact hs.setTable (fun row hrow => by simp [Table.new] at hrow) table
  | insertRow table row =>
    have hpush : [(table, row)].foldlM pushRow s = .ok s' := by
      rw [foldlM_cons, show pushRow s (table, row) = .ok s' from h]
      rfl
    refine pushRows_roomy hs (fun p hp => ?_) hpush
    cases mem_singleton.mp hp
    exact hguard
  | transaction rows => exact pushRows_roomy hs hguard h
  | createDatabase name =>
    cases h
    exact hs
  | dropDatabase name =>
    cases h
    exact hs
  | alterTable table change =>
    rcases applyAlter_eq_ok h with rfl | ⟨t, altered, ht, haltered, rfl⟩
    · exact hs
    · obtain ⟨hschema, hrows⟩ := computeAlteredTable_eq_ok haltered
      refine hs.setTable (fun row' hrow' => ?_) table
      obtain ⟨row, hrow, hrowOk⟩ := Lists.forall₂_mem_right hrows hrow'
      rw [hschema]
      exact hguard t ht row hrow row' (mem_toOption.mpr hrowOk)

end

section Ahead
variable {t : Table} {i : Nat} {next : Int64}

structure Table.Counting (t : Table) : Prop where
  placed : t.Placed
  counted : t.Counted
  roomy : t.Roomy

theorem Table.Counting.lt (h : t.Counting) {v : Int64} (hauto : t.autoIncrement = some (i, next))
    {row : Row} (hrow : row ∈ t.rows) (hcell : row[i]? = some (.int v)) : v.toInt < next.toInt := by
  rcases h.counted i next hauto row hrow v hcell with hlt | rfl
  · exact hlt
  · have hcounter := h.placed.counterIndex
    rw [hauto, map_some] at hcounter
    exact absurd hcell (h.roomy row hrow i hcounter.symm)

theorem Table.Counting.reserve (h : t.Counting) (hauto : t.autoIncrement = some (i, next))
    (hmax : next ≠ Int64.maxValue) :
    ({ t with autoIncrement := some (i, next + 1) } : Table).Counting where
  placed := ⟨h.placed.keyIndex, by rw [← h.placed.counterIndex, hauto]; rfl⟩
  counted := by
    rintro _ _ ⟨⟩ row hrow v hcell
    have hlt := h.lt hauto hrow hcell
    have hsucc := toInt_succ (Int.not_le.mp fun hle => hmax (eq_maxValue hle))
    exact .inl (by omega)
  roomy := h.roomy

variable {policy : SyncPolicy} {s s' : Sys}

/-- The condition on the steps of a server: no row brings the largest integer into a counted
column, and no value is reserved at the end of the range. -/
def CountersLeaveRoom (s : Sys) : Action → Prop
  | .apply c => s.store.LeavesRoom c.entry
  | .nextAutoIncrement table => s.store.CounterBelowMax table
  | _ => True

theorem step_counting {a : Action} (hs : s.store.All Table.Counting) (ha : CountersLeaveRoom s a)
    (hstep : s.step policy a = some s') : s'.store.All Table.Counting := by
  cases a with
  | check c =>
    obtain ⟨-, ⟨-, rfl⟩ | ⟨-, rfl⟩ | ⟨e, rfl⟩⟩ := step_check hstep <;> exact hs
  | write batch io =>
    obtain ⟨-, ⟨-, rfl⟩ | ⟨e, -, rfl⟩⟩ := step_write hstep <;> exact hs
  | apply c =>
    obtain ⟨-, ⟨store, happly, rfl⟩ | ⟨e, -, rfl⟩⟩ := step_apply hstep
    · have hplaced := apply_all Table.placed_grown (fun n t ht => (hs n t ht).placed) happly
      have hcounted := apply_all Table.counted_grown (fun n t ht => (hs n t ht).counted) happly
      have hroomy := applyEntry_roomy (fun n t ht => (hs n t ht).roomy) ha
        (applyEntry_of_apply happly)
      exact fun n t ht => ⟨hplaced n t ht, hcounted n t ht, hroomy n t ht⟩
    · exact hs
  | nextAutoIncrement table =>
    rcases step_nextAutoIncrement hstep with rfl | ⟨store, v, hnext, rfl⟩
    · exact hs
    · obtain ⟨t, i, ht, hauto, rfl⟩ := nextAutoIncrement_eq_iff.mp hnext
      exact hs.setTable ((hs table t ht).reserve hauto (ha t ht (i, v) hauto)) table

def replayStep (s : Store) (e : Entry) : Option Store := (applyEntry s e).toOption

theorem replay_counting {store : Store}
    (h : Runs.Reach replayStep Store.LeavesRoom Store.empty store) :
    store.All Table.Counting := by
  have hinv : store.Derived ∧ store.All Table.Roomy := by
    refine Runs.Reach.invariant (P := fun s => s.Derived ∧ s.All Table.Roomy) h
      ⟨all_empty, all_empty⟩ fun s e s' hs he hstep => ?_
    have happly := mem_toOption.mp hstep
    exact ⟨applyEntry_derived hs.1 happly, applyEntry_roomy hs.2 he happly⟩
  exact fun n t ht => ⟨Table.placed_grown.derived (hinv.1 n t ht),
    Table.counted_grown.derived (hinv.1 n t ht), hinv.2 n t ht⟩

/-- In every state of a server that replays a log and then runs calls, the next value of a
counter is above every integer stored in its column, and neither the addition made for a
stored integer nor that of a further reservation overflows. -/
theorem counters_ahead {store : Store} {file : List UInt8}
    (hreplay : Runs.Reach replayStep Store.LeavesRoom Store.empty store)
    (hrun : Runs.Reach (Sys.step policy) CountersLeaveRoom (Sys.start store file) s)
    {table : String} {t : Table} {i : Nat} (ht : s.store.tables.lookup table = some t)
    (hi : t.schema.counterIndex = some i) :
    ∃ store' next, nextAutoIncrement s.store table = .ok (store', next) ∧
      (∀ row ∈ t.rows, ∀ v, row[i]? = some (.int v) → v < next ∧ (v + 1).toInt = v.toInt + 1) ∧
      (CountersLeaveRoom s (.nextAutoIncrement table) → (next + 1).toInt = next.toInt + 1) := by
  have hcounting : s.store.All Table.Counting :=
    hrun.invariant (replay_counting hreplay) fun _ _ _ hs ha hstep => step_counting hs ha hstep
  have htable := hcounting table t ht
  have hcounter := htable.placed.counterIndex
  rw [hi] at hcounter
  obtain ⟨⟨j, next⟩, hauto, rfl⟩ := map_eq_some_iff.mp hcounter
  refine ⟨_, next, nextAutoIncrement_eq_iff.mpr ⟨t, j, ht, hauto, rfl⟩, ?_, fun hroom => ?_⟩
  · intro row hrow v hcell
    have hlt := htable.lt hauto hrow hcell
    have hmax : next.toInt ≤ Int64.maxValue.toInt := by
      have hvalue : Int64.maxValue.toInt = 2 ^ 63 - 1 := by decide
      have := Int64.toInt_lt next
      omega
    exact ⟨Int64.lt_iff_toInt_lt.mpr hlt, toInt_succ (by omega)⟩
  · exact toInt_succ (Int.not_le.mp fun hle => hroom t ht (j, next) hauto (eq_maxValue hle))

def countedStore (key next : Int64) : Store :=
  ⟨Finmap.singleton "t" ⟨⟨[⟨"id", .int, false, true⟩], some "id"⟩, some 0, [[.int key]],
    Finmap.singleton (.int key) 0, some (0, next)⟩, ∅⟩

def createCounted : Call := .createTable "t" [⟨"id", .int, false, true⟩] (some "id")

def countedCalls (key : Int64) : List Call := [createCounted, .insertRow "t" [.int key]]

def Call.alone (c : Call) : List Action := [.check c, .write [c] .done, .apply c]

/-- A row is replayed and a value reserved. -/
theorem counters_ahead_after_five :
    ∃ store' next, nextAutoIncrement (countedStore 5 7) "t" = .ok (store', next) ∧ 5 < next := by
  have hallowed : Runs.Allowed replayStep Store.LeavesRoom Store.empty
      ((countedCalls 5).map Call.entry) := by decide +kernel
  have hreplayed : ((countedCalls 5).map Call.entry).foldlM replayStep Store.empty =
      some (countedStore 5 6) := by decide +kernel
  have hroom : (countedStore 5 6).CounterBelowMax "t" := by decide +kernel
  have hnext : Runs.Next (Sys.step .always) CountersLeaveRoom (.start (countedStore 5 6) [])
      (.start (countedStore 5 7) []) := ⟨.nextAutoIncrement "t", hroom, rfl⟩
  have ht : (countedStore 5 7).tables.lookup "t" = some _ := rfl
  obtain ⟨store', next, hnext, habove, -⟩ :=
    counters_ahead (hallowed.reach hreplayed) (.single hnext) ht rfl
  exact ⟨store', next, hnext, (habove [.int 5] mem_cons_self 5 rfl).1⟩

/-- The largest integer is stored, and the counter stays where it was, in memory and when the
log is replayed. -/
theorem counter_behind_max :
    ∃ s, ((countedCalls Int64.maxValue).flatMap Call.alone).foldlM (Sys.step .always)
        (.start Store.empty []) = some s ∧
      s.store = countedStore Int64.maxValue 1 ∧
      ((countedCalls Int64.maxValue).map Call.entry).foldlM replayStep Store.empty = some s.store ∧
      nextAutoIncrement s.store "t" = .ok (countedStore Int64.maxValue 2, 1) ∧
      ¬ Int64.maxValue < 1 ∧ (Int64.maxValue + 1).toInt ≠ Int64.maxValue.toInt + 1 := by
  have hrun : Sys.store <$> ((countedCalls Int64.maxValue).flatMap Call.alone).foldlM
      (Sys.step .always) (.start Store.empty []) = some (countedStore Int64.maxValue 1) := by
    decide +kernel
  obtain ⟨s, hs, hstore⟩ := map_eq_some_iff.mp hrun
  have hreplayed : ((countedCalls Int64.maxValue).map Call.entry).foldlM replayStep Store.empty =
      some (countedStore Int64.maxValue 1) := by decide +kernel
  have hnext : nextAutoIncrement (countedStore Int64.maxValue 1) "t" =
      .ok (countedStore Int64.maxValue 2, 1) := by decide +kernel
  rw [← hstore] at hreplayed hnext
  exact ⟨s, hs, hstore, hreplayed, hnext, by decide, by decide⟩

end Ahead

section Reservations
variable {c : Call} {table : String} {store : Store}

structure Reserving where
  sys : Sys
  reserved : List (String × Int64)

def reservedBy (store : Store) : Action → List (String × Int64)
  | .nextAutoIncrement table =>
    match nextAutoIncrement store table with
    | .ok (_, v) => [(table, v)]
    | _ => []
  | .check _ | .write _ _ | .apply _ => []

def Reserving.step (policy : SyncPolicy) (r : Reserving) (a : Action) : Option Reserving :=
  (r.sys.step policy a).map fun sys => ⟨sys, r.reserved ++ reservedBy r.sys.store a⟩

/-- If the altered table counts a column, some row then has an integer there that is not below
the value, nor the largest one. -/
def Table.KeepsAbove (t : Table) (change : SchemaChange) (v : Int64) : Prop :=
  ∀ i ∈ (change.alteredSchema t.schema).counterIndex, ∃ row ∈ t.rows,
    ∃ row' ∈ (change.alteredRow t.schema row).toOption, ∃ w ∈ row'[i]?.bind Value.asInt,
      v ≤ w ∧ w ≠ Int64.maxValue
  deriving Decidable

/-- The condition on the steps: an `ALTER TABLE` rebuilds no counter behind a value that was
handed out, and no value is reserved at the end of the range. -/
def ReservationsKept (r : Reserving) : Action → Prop
  | .apply (.alterTable name change) => ∀ t ∈ r.sys.store.tables.lookup name,
    ∀ p ∈ r.reserved, p.1 = name → t.KeepsAbove change p.2
  | .nextAutoIncrement table => r.sys.store.CounterBelowMax table
  | _ => True

instance (r : Reserving) (a : Action) : Decidable (ReservationsKept r a) := by
  unfold ReservationsKept
  rcases a with _ | _ | ⟨⟨⟩⟩ | _ <;> infer_instance

def Table.Past (v : Int64) (t : Table) : Prop := ∀ p ∈ t.autoIncrement, v.toInt < p.2.toInt

structure Reserving.Fresh (r : Reserving) : Prop where
  past : ∀ table v, (table, v) ∈ r.reserved →
    ∃ t, r.sys.store.tables.lookup table = some t ∧ t.Past v
  nodup : r.reserved.Nodup

variable {s s' : Store} {t t' : Table} {v : Int64}

theorem Value.bind_asInt {cell : Option Value} : cell.bind asInt = some v ↔ cell = some (.int v) := by
  rcases cell with _ | cell
  · simp
  · cases cell <;> simp [asInt]

theorem Table.Past.push {row : Row} (h : t.Past v) (hpush : t.pushTrusted row = .ok t') :
    t'.Past v := by
  rintro ⟨i, next⟩ hauto
  have hcounter := pushTrusted_counter hpush
  rw [show t'.autoIncrement = some (i, next) from hauto] at hcounter
  obtain ⟨old, hold, hle, -⟩ := counterWith_some hcounter
  exact lt_of_lt_of_le (h (i, old) hold) hle

theorem Table.KeepsAbove.past {change : SchemaChange} (h : t.KeepsAbove change v)
    (haltered : computeAlteredTable t change = .ok t') : t'.Past v := by
  rintro ⟨i, next⟩ hauto
  obtain ⟨hschema, hrows⟩ := computeAlteredTable_eq_ok haltered
  have hderived := computeAlteredTable_derived haltered
  have hcounter := (placed_grown.derived hderived).counterIndex
  rw [show t'.autoIncrement = some (i, next) from hauto, hschema] at hcounter
  obtain ⟨row, hrow, row', hrow', w, hw, hle, hmax⟩ := h i hcounter.symm
  have hcell : row'[i]? = some (.int w) := Value.bind_asInt.mp hw
  have hmem : row' ∈ t'.rows := by
    obtain ⟨row'', hrow'', heq⟩ := Lists.forall₂_mem_left hrows hrow
    cases (mem_toOption.mp hrow').symm.trans heq
    exact hrow''
  rcases counted_grown.derived hderived i next hauto row' hmem w hcell with hlt | heq
  · exact lt_of_le_of_lt (Int64.le_iff_toInt_le.mp hle) hlt
  · exact absurd heq hmax

/-- Only an `ALTER TABLE` can set a counter back. -/
theorem apply_past (halters : c.alters ≠ some table) (ht : s.tables.lookup table = some t)
    (hpast : t.Past v) (h : apply s c = .ok s') :
    ∃ t', s'.tables.lookup table = some t' ∧ t'.Past v := by
  cases c with
  | createTable name columns primaryKey => exact ⟨t, lookup_of_create ht h, hpast⟩
  | alterTable name change =>
    obtain ⟨u, altered, -, -, rfl⟩ := apply_alterTable_eq_ok h
    have hne : table ≠ name := fun heq => halters (heq ▸ rfl)
    exact ⟨t, by rw [lookup_setTable_of_ne _ _ _ hne, ht], hpast⟩
  | insertRow | insertRows | createDatabase | dropDatabase =>
    obtain ⟨s₁, hpush, htables⟩ := apply_pushes rfl rfl h
    obtain ⟨t', hpush', ht'⟩ := (pushRows_lookup hpush table).2 t ht
    refine ⟨t', by rw [htables, ht'], ?_⟩
    exact foldlM_invariant (fun _ _ _ hu hpush => hu.push hpush) hpast hpush'

theorem Table.Past.reserve {i : Nat} {next : Int64} (h : v.toInt ≤ next.toInt)
    (hmax : next ≠ Int64.maxValue) :
    ({ t with autoIncrement := some (i, next + 1) } : Table).Past v := by
  rintro _ ⟨⟩
  have hsucc := toInt_succ (Int.not_le.mp fun hle => hmax (eq_maxValue hle))
  change v.toInt < (next + 1).toInt
  omega

variable {policy : SyncPolicy} {r r' : Reserving}

theorem Reserving.Fresh.reserve (h : r.Fresh) (hroom : r.sys.store.CounterBelowMax table)
    (hnext : nextAutoIncrement r.sys.store table = .ok (store, v)) :
    Reserving.Fresh ⟨{ r.sys with store }, r.reserved ++ [(table, v)]⟩ := by
  obtain ⟨t, i, ht, hauto, rfl⟩ := nextAutoIncrement_eq_iff.mp hnext
  have hmax : v ≠ Int64.maxValue := hroom t ht (i, v) hauto
  have hbelow : ∀ w, (table, w) ∈ r.reserved → w.toInt < v.toInt := by
    intro w hw
    obtain ⟨u, hu, hpast⟩ := h.past table w hw
    cases ht.symm.trans hu
    exact hpast (i, v) hauto
  constructor
  · intro other w hw
    by_cases heq : other = table
    · subst heq
      refine ⟨_, lookup_setTable _ _ _, Table.Past.reserve ?_ hmax⟩
      rcases mem_append.mp hw with hw | hw
      · exact (hbelow w hw).le
      · cases mem_singleton.mp hw
        exact le_rfl
    · rcases mem_append.mp hw with hw | hw
      · obtain ⟨u, hu, hpast⟩ := h.past other w hw
        exact ⟨u, by rw [lookup_setTable_of_ne _ _ _ heq, hu], hpast⟩
      · cases mem_singleton.mp hw
        exact absurd rfl heq
  · refine nodup_append.mpr ⟨h.nodup, nodup_singleton _, ?_⟩
    rintro p hp _ hq rfl
    cases mem_singleton.mp hq
    exact lt_irrefl _ (hbelow v hp)

theorem Reserving.Fresh.apply (h : r.Fresh) (hkept : ReservationsKept r (.apply c))
    (happly : apply r.sys.store c = .ok store) {sys : Sys} (hsys : sys.store = store) :
    Reserving.Fresh ⟨sys, r.reserved⟩ := by
  refine ⟨fun table w hw => ?_, h.nodup⟩
  obtain ⟨t, ht, hpast⟩ := h.past table w hw
  change ∃ t, sys.store.tables.lookup table = some t ∧ t.Past w
  rw [hsys]
  by_cases halters : c.alters = some table
  · cases c with
    | alterTable name change =>
      cases halters
      obtain ⟨u, altered, hu, haltered, rfl⟩ := apply_alterTable_eq_ok happly
      cases ht.symm.trans hu
      exact ⟨altered, lookup_setTable _ _ _, (hkept t ht (table, w) hw rfl).past haltered⟩
    | createTable | insertRow | insertRows | createDatabase | dropDatabase => cases halters
  · exact apply_past halters ht hpast happly

theorem Reserving.Fresh.step (h : r.Fresh) {a : Action} (hkept : ReservationsKept r a)
    (hstep : r.step policy a = some r') : r'.Fresh := by
  obtain ⟨sys, hsys, rfl⟩ := map_eq_some_iff.mp hstep
  cases a with
  | check c =>
    rw [reservedBy, append_nil]
    obtain ⟨-, ⟨-, rfl⟩ | ⟨-, rfl⟩ | ⟨e, rfl⟩⟩ := step_check hsys <;> exact ⟨h.past, h.nodup⟩
  | write batch io =>
    rw [reservedBy, append_nil]
    obtain ⟨-, ⟨-, rfl⟩ | ⟨e, -, rfl⟩⟩ := step_write hsys <;> exact ⟨h.past, h.nodup⟩
  | apply c =>
    rw [reservedBy, append_nil]
    obtain ⟨-, ⟨store, happly, rfl⟩ | ⟨e, -, rfl⟩⟩ := step_apply hsys
    · exact h.apply hkept happly rfl
    · exact ⟨h.past, h.nodup⟩
  | nextAutoIncrement table =>
    simp only [Sys.step] at hsys
    cases hnext : nextAutoIncrement r.sys.store table with
    | ok p =>
      rw [hnext] at hsys
      cases hsys
      simp only [reservedBy, hnext]
      exact h.reserve hkept hnext
    | err e =>
      rw [hnext] at hsys
      cases hsys
      simp only [reservedBy, hnext, append_nil]
      exact h
    | panic =>
      rw [hnext] at hsys
      cases hsys

/-- No two reservations on a table return the same value. -/
theorem reserved_nodup {store : Store} {file : List UInt8}
    (hrun : Runs.Reach (Reserving.step policy) ReservationsKept ⟨.start store file, []⟩ r) :
    r.reserved.Nodup := by
  have hfresh : r.Fresh := by
    refine hrun.invariant ⟨fun table v hv => ?_, nodup_nil⟩
      fun _ _ _ h hkept hstep => h.step hkept hstep
    cases hv
  exact hfresh.nodup

def addNullable : Call := .alterTable "t" (.addColumn ⟨"n", .int, true, false⟩ false)

def storedSchedule : List Action :=
  createCounted.alone ++ [.nextAutoIncrement "t"] ++ (Call.insertRow "t" [.int 1]).alone ++
    addNullable.alone ++ [.nextAutoIncrement "t"]

theorem reserved_nodup_stored :
    ∃ r, storedSchedule.foldlM (Reserving.step .always) ⟨.start Store.empty [], []⟩ = some r ∧
      r.reserved = [("t", 1), ("t", 2)] ∧ r.reserved.Nodup := by
  have hallowed : Runs.Allowed (Reserving.step .always) ReservationsKept
      ⟨.start Store.empty [], []⟩ storedSchedule := by
    decide +kernel
  have hrun : Reserving.reserved <$> storedSchedule.foldlM (Reserving.step .always)
      ⟨.start Store.empty [], []⟩ = some [("t", 1), ("t", 2)] := by
    decide +kernel
  obtain ⟨r, hr, hreserved⟩ := map_eq_some_iff.mp hrun
  exact ⟨r, hr, hreserved, reserved_nodup (hallowed.reach hr)⟩

def rebuiltSchedule : List Action :=
  createCounted.alone ++ [.nextAutoIncrement "t"] ++ addNullable.alone ++ [.nextAutoIncrement "t"]

/-- After the table has been altered, a value that was drawn before is drawn again. -/
theorem reserved_twice :
    ∃ r, rebuiltSchedule.foldlM (Reserving.step .always) ⟨.start Store.empty [], []⟩ = some r ∧
      r.reserved = [("t", 1), ("t", 1)] := by
  have hrun : Reserving.reserved <$> rebuiltSchedule.foldlM (Reserving.step .always)
      ⟨.start Store.empty [], []⟩ = some [("t", 1), ("t", 1)] := by
    decide +kernel
  exact map_eq_some_iff.mp hrun

end Reservations

end MysqlRust
