import MysqlRust.Storage.Interleaving

/-! # Concurrent `CREATE TABLE` and `INSERT`

Two `CREATE TABLE` statements of one name can both be logged. The loser's record replays as a
new, empty table. That loses nothing while the table it replaces is still empty and alike.
-/
namespace MysqlRust

open Outcome List Option

def rowsFor (name : String) (rows : List (String × Row)) : List Row :=
  (rows.filter fun p => p.1 = name).map Prod.snd

def waitingRows (name : String) (queue : List Call) : List Row :=
  queue.flatMap fun c => rowsFor name c.inserts

def Call.CreatesOrInserts : Call → Prop
  | .createTable _ _ _ | .insertRow _ _ | .insertRows _ => True
  | _ => False

def Harmless (s : Store) : Call → Prop
  | .createTable name columns primaryKey =>
    ∀ t ∈ s.tables.lookup name, t.schema = ⟨columns, primaryKey⟩ ∧ t.rows = []
  | _ => True

/-- A call behind another one in the log: a `CREATE TABLE` follows no insert into its table
and no different `CREATE TABLE` of its name. -/
def Compatible (d : Call) : Call → Prop
  | .createTable name columns primaryKey =>
    name ∉ d.locks ∧ (d.creates = some name → d = .createTable name columns primaryKey)
  | _ => True

/-- Writes succeed, and a `CREATE TABLE` is logged only while its record is harmless. -/
def CreatesApart (s : Sys) : Action → Prop
  | .check c => c.CreatesOrInserts
  | .write batch io => io = .done ∧ Framable (batch.map Call.entry) ∧
      (∀ c ∈ batch, Harmless s.store c) ∧ (s.queue ++ batch).Pairwise Compatible
  | _ => True

instance (c : Call) : Decidable c.CreatesOrInserts := by
  unfold Call.CreatesOrInserts
  split <;> infer_instance

instance (s : Store) (c : Call) : Decidable (Harmless s c) := by
  unfold Harmless
  split <;> infer_instance

instance (d c : Call) : Decidable (Compatible d c) := by
  unfold Compatible
  split <;> infer_instance

instance (s : Sys) (a : Action) : Decidable (CreatesApart s a) := by
  unfold CreatesApart
  split <;> infer_instance

section
variable {rows : List (String × Row)} {name : String} {queue : List Call}
variable {s s' : Store} {t : Table} {c : Call}

theorem rowsFor_eq_nil : rowsFor name rows = [] ↔ ∀ p ∈ rows, p.1 ≠ name := by
  simp [rowsFor, filter_eq_nil_iff]

@[simp] theorem rowsFor_append (name : String) (rows rows' : List (String × Row)) :
    rowsFor name (rows ++ rows') = rowsFor name rows ++ rowsFor name rows' := by
  simp [rowsFor]

theorem rowsFor_pairs (name table : String) (rows : List Row) :
    rowsFor name (rows.map fun row => (table, row)) = if name = table then rows else [] := by
  induction rows with
  | nil => simp [rowsFor]
  | cons row rows ih =>
    rw [map_cons, ← singleton_append, rowsFor_append, ih]
    by_cases heq : name = table
    · simp [rowsFor, heq]
    · simp [rowsFor, heq, Ne.symm heq]

theorem mem_rowsFor {p : String × Row} (h : p ∈ rows) : p.2 ∈ rowsFor p.1 rows :=
  mem_map_of_mem (mem_filter.mpr ⟨h, by simp⟩)

@[simp] theorem waitingRows_append (name : String) (cs ds : List Call) :
    waitingRows name (cs ++ ds) = waitingRows name cs ++ waitingRows name ds := by
  simp [waitingRows]

theorem waitingRows_eq_nil (h : ∀ c ∈ queue, name ∉ c.locks) : waitingRows name queue = [] := by
  refine flatMap_eq_nil_iff.mpr fun c hc => rowsFor_eq_nil.mpr fun p hp heq => h c hc ?_
  exact heq ▸ mem_map_of_mem hp

/-- A table gains exactly its own rows of a batch, and no table appears. -/
theorem pushRows_lookup (h : rows.foldlM pushRow s = .ok s') (name : String) :
    (s.tables.lookup name = none → s'.tables.lookup name = none) ∧
    ∀ t, s.tables.lookup name = some t → ∃ t',
      (rowsFor name rows).foldlM Table.pushTrusted t = .ok t' ∧
      s'.tables.lookup name = some t' := by
  induction rows generalizing s with
  | nil =>
    cases h
    exact ⟨id, fun t ht => ⟨t, rfl, ht⟩⟩
  | cons p rows ih =>
    rw [foldlM_cons] at h
    obtain ⟨s₁, hp, h⟩ := bind_eq_ok.mp h
    obtain ⟨hnone, hsome⟩ := ih h
    rcases pushRow_eq_ok hp with ⟨hu, rfl⟩ | ⟨u, u', hu, hu', rfl⟩
    · by_cases heq : p.1 = name
      · rw [heq] at hu
        exact ⟨hnone, fun t ht => by simp [hu] at ht⟩
      · simpa [rowsFor, heq] using And.intro hnone hsome
    · by_cases heq : name = p.1
      · subst heq
        rw [hu]
        refine ⟨nofun, ?_⟩
        intro t ht
        cases ht
        obtain ⟨t', ht', hlookup⟩ := hsome u' (lookup_setTable _ _ _)
        refine ⟨t', ?_, hlookup⟩
        simpa [rowsFor, hu'] using ht'
      · rw [lookup_setTable_of_ne _ _ _ heq] at hnone hsome
        simpa [rowsFor, Ne.symm heq] using And.intro hnone hsome

theorem pushRows_databases (h : rows.foldlM pushRow s = .ok s') : s'.databases = s.databases := by
  refine foldlM_invariant (P := fun u => u.databases = s.databases)
    (fun u p u' hu hp => ?_) rfl h
  rcases pushRow_eq_ok hp with ⟨-, rfl⟩ | ⟨t, t', -, -, rfl⟩ <;> exact hu

theorem Table.Same.pushAll {u : Table} (h : t.Same u) (rows : List Row) :
    Rel Table.Same (rows.foldlM Table.pushTrusted t) (rows.foldlM Table.pushTrusted u) :=
  Rel.foldlM (fun _ _ row h => Table.Same.pushTrusted h row) rows h

/-- A call that holds the lock of a table alone can be applied ahead of the others. -/
theorem waitingRows_erase (hc : c ∈ queue)
    (hlock : ∀ d ∈ queue.erase c, name ∈ c.locks → name ∉ d.locks) :
    waitingRows name queue = rowsFor name c.inserts ++ waitingRows name (queue.erase c) := by
  obtain ⟨ahead, behind, -, rfl, herase⟩ := exists_erase_eq hc
  rw [herase] at hlock ⊢
  have hcons : waitingRows name (c :: behind) =
      rowsFor name c.inserts ++ waitingRows name behind := rfl
  rw [waitingRows_append, waitingRows_append, hcons]
  by_cases hmem : name ∈ c.locks
  · rw [waitingRows_eq_nil fun d hd => hlock d (mem_append_left _ hd) hmem]
    simp
  · have hnil : rowsFor name c.inserts = [] := rowsFor_eq_nil.mpr fun p hp heq =>
      hmem (heq ▸ mem_map_of_mem hp)
    simp [hnil]

theorem waitingRows_erase_of_inserts_nil (hc : c ∈ queue) (hnil : c.inserts = []) (name : String) :
    waitingRows name (queue.erase c) = waitingRows name queue := by
  have hlocks : name ∉ c.locks := by simp [Call.locks, hnil]
  have hrows : rowsFor name c.inserts = [] := by simp [hnil, rowsFor]
  rw [waitingRows_erase hc fun _ _ hname => absurd hname hlocks, hrows, nil_append]

def Store.Accepts (s : Store) (p : String × Row) : Prop :=
  ∃ t, s.tables.lookup p.1 = some t ∧ p.2.length = t.schema.columns.length

theorem Store.Accepts.fits {p : String × Row} (h : s.Accepts p) : s.Fits p := by
  obtain ⟨t, ht, hlen⟩ := h
  intro u hu
  cases ht.symm.trans hu
  exact hlen

theorem accepts_of_check (h : check s c = .ok true) : ∀ p ∈ c.inserts, s.Accepts p := by
  have hrow : ∀ {table row t}, checkRow s table row = .ok t → s.Accepts (table, row) :=
    fun ht => ⟨_, (checkRow_eq_ok ht).1, (checkRow_eq_ok ht).2.1⟩
  cases c with
  | insertRow table row =>
    obtain ⟨t, ht, -⟩ := bind_eq_ok.mp h
    simpa [Call.inserts] using hrow ht
  | insertRows rows =>
    simp only [check] at h
    split_ifs at h
    · cases h
    · obtain ⟨seen, hseen, -⟩ := bind_eq_ok.mp h
      intro p hp
      obtain ⟨t, ht⟩ := checkBatch_eq_ok hseen p hp
      exact hrow ht
  | createTable | alterTable | createDatabase | dropDatabase => simp [Call.inserts]

theorem inserts_of_check_false (h : check s c = .ok false) : c.inserts = [] := by
  cases c with
  | insertRow table row =>
    obtain ⟨t, -, h⟩ := bind_eq_ok.mp h
    cases h
  | insertRows rows =>
    simp only [check] at h
    split_ifs at h with hrows
    · exact hrows
    · obtain ⟨seen, -, h⟩ := bind_eq_ok.mp h
      cases h
  | createTable | alterTable | createDatabase | dropDatabase => rfl

theorem Call.CreatesOrInserts.cases (h : c.CreatesOrInserts) :
    (∃ name columns primaryKey, c = .createTable name columns primaryKey) ∨
    c.creates = none ∧ (∀ s, applyEntry s c.entry = c.inserts.foldlM pushRow s) ∧
      ∀ s : Store, (∀ p ∈ c.inserts, s.Accepts p) → apply s c = c.inserts.foldlM pushRow s := by
  cases c with
  | createTable name columns primaryKey => exact .inl ⟨_, _, _, rfl⟩
  | insertRow table row =>
    have hsingle : ∀ s, [(table, row)].foldlM pushRow s = pushRow s (table, row) := fun s => by
      rw [foldlM_cons]
      exact bind_pure _
    refine .inr ⟨rfl, fun s => (hsingle s).symm, fun s hs => ?_⟩
    obtain ⟨t, ht, -⟩ := hs (table, row) mem_cons_self
    have hlookup : s.tables.lookup table = some t := ht
    rw [Call.inserts, hsingle]
    simp [apply, pushRow, hlookup, okOr]
  | insertRows rows => exact .inr ⟨rfl, fun s => rfl, fun s _ => rfl⟩
  | alterTable | createDatabase | dropDatabase => cases h

variable {p : String × Row}

def Store.Grows (s s' : Store) : Prop :=
  ∀ name t, s.tables.lookup name = some t →
    ∃ t', s'.tables.lookup name = some t' ∧ t'.schema = t.schema ∧ t.rows ⊆ t'.rows

def Store.Contains (s : Store) (p : String × Row) : Prop :=
  ∃ t, s.tables.lookup p.1 = some t ∧ p.2 ∈ t.rows

theorem Store.Grows.accepts (h : s.Grows s') (hp : s.Accepts p) : s'.Accepts p := by
  obtain ⟨t, ht, hlen⟩ := hp
  obtain ⟨t', ht', hschema, -⟩ := h p.1 t ht
  exact ⟨t', ht', by rw [hlen, hschema]⟩

theorem Store.Grows.contains (h : s.Grows s') (hp : s.Contains p) : s'.Contains p := by
  obtain ⟨t, ht, hrow⟩ := hp
  obtain ⟨t', ht', -, hrows⟩ := h p.1 t ht
  exact ⟨t', ht', hrows hrow⟩

theorem pushRows_grows (h : rows.foldlM pushRow s = .ok s') : s.Grows s' := by
  intro name t ht
  obtain ⟨t', hpush, ht'⟩ := (pushRows_lookup h name).2 t ht
  obtain ⟨hschema, hrows⟩ := pushAll_eq_ok hpush
  exact ⟨t', ht', hschema, hrows ▸ subset_append_left _ _⟩

theorem setTable_grows {name : String} (h : s.tables.lookup name = none) (t : Table) :
    s.Grows (s.setTable name t) := by
  intro other u hu
  have hne : other ≠ name := by
    rintro rfl
    simp [h] at hu
  exact ⟨u, by rw [lookup_setTable_of_ne _ _ _ hne, hu], rfl, List.Subset.refl _⟩

theorem Store.Same.grows (h : s.Same s') : s.Grows s' := by
  intro name t ht
  have htables := h.tables name
  rw [ht] at htables
  generalize hs' : s'.tables.lookup name = u at htables ⊢
  cases htables with
  | some htu => exact ⟨_, rfl, htu.schema.symm, htu.rows ▸ List.Subset.refl _⟩

theorem pushRows_contains (hrows : ∀ p ∈ rows, s.Accepts p) (h : rows.foldlM pushRow s = .ok s') :
    ∀ p ∈ rows, s'.Contains p := by
  intro p hp
  obtain ⟨t, ht, -⟩ := hrows p hp
  obtain ⟨t', hpush, ht'⟩ := (pushRows_lookup h p.1).2 t ht
  refine ⟨t', ht', ?_⟩
  rw [(pushAll_eq_ok hpush).2]
  exact mem_append_right _ (mem_rowsFor hp)

variable {m u : Option Table}

/-- One table in memory and in the replayed log: in neither, created in the log by calls
still to be applied, or in both with the same rows once these calls are applied. -/
inductive Agrees (queue : List Call) (name : String) : Option Table → Option Table → Prop
  | absent (h : ∀ c ∈ queue, c.creates ≠ some name) : Agrees queue name none none
  | created {columns : List ColumnSchema} {primaryKey : Option String}
      (hmem : .createTable name columns primaryKey ∈ queue)
      (hall : ∀ c ∈ queue, c.creates = some name → c = .createTable name columns primaryKey) :
      Agrees queue name none (some (Table.new columns primaryKey))
  | filled {t t' u : Table}
      (hpush : (waitingRows name queue).foldlM Table.pushTrusted t = .ok t') (h : u.Same t') :
      Agrees queue name (some t) (some u)

theorem Agrees.append (h : Agrees queue name m u) (hcreate : m = none → c.creates ≠ some name)
    (hrows : rowsFor name c.inserts = []) : Agrees (queue ++ [c]) name m u := by
  have hwaiting : waitingRows name (queue ++ [c]) = waitingRows name queue := by
    simp [waitingRows, hrows]
  cases h with
  | absent h =>
    exact .absent (forall_mem_append.mpr ⟨h, forall_mem_singleton.mpr (hcreate rfl)⟩)
  | created hmem hall =>
    refine .created (mem_append_left _ hmem) (forall_mem_append.mpr ⟨hall, ?_⟩)
    exact forall_mem_singleton.mpr fun hc => absurd hc (hcreate rfl)
  | filled hpush h => exact .filled (hwaiting ▸ hpush) h

theorem Agrees.erase (h : Agrees queue name m u) (hcreate : m = none → c.creates ≠ some name)
    (hrows : waitingRows name (queue.erase c) = waitingRows name queue) :
    Agrees (queue.erase c) name m u := by
  cases h with
  | absent h => exact .absent fun d hd => h d (mem_of_mem_erase hd)
  | created hmem hall =>
    refine .created ((mem_erase_of_ne ?_).mpr hmem) fun d hd =>
      hall d (mem_of_mem_erase hd)
    rintro rfl
    exact hcreate rfl rfl
  | filled hpush h => exact .filled (hrows ▸ hpush) h

structure Replays (store : Store) (queue : List Call) (r : Store) : Prop where
  wf : r.Wf
  derived : r.Derived
  databases : r.databases = store.databases
  agrees : ∀ name, Agrees queue name (store.tables.lookup name) (r.tables.lookup name)

variable {store store' r : Store} {columns : List ColumnSchema} {primaryKey : Option String}

theorem derived_eq_new {t : Table} (h : t.Derived) (hschema : t.schema = ⟨columns, primaryKey⟩)
    (hrows : t.rows = []) : t = Table.new columns primaryKey := by
  rw [Table.Derived, Table.rebuild, hschema, hrows] at h
  exact (ok.inj h).symm

theorem Replays.logCreate (h : Replays store queue r)
    (hharmless : Harmless store (.createTable name columns primaryKey))
    (hcompat : ∀ d ∈ queue, Compatible d (.createTable name columns primaryKey)) :
    Replays store (queue ++ [.createTable name columns primaryKey])
      (r.setTable name (Table.new columns primaryKey)) := by
  refine ⟨h.wf.setTable (Table.new_wf columns primaryKey) name,
    h.derived.setTable (Table.new_derived columns primaryKey) name, h.databases, fun other => ?_⟩
  by_cases heq : other = name
  · subst heq
    have hagrees := h.agrees other
    rw [lookup_setTable]
    generalize hm : store.tables.lookup other = m, hu : r.tables.lookup other = u at hagrees
    cases m with
    | none =>
      refine .created (mem_append_right _ mem_cons_self) (forall_mem_append.mpr ⟨?_, ?_⟩)
      · exact fun d hd => (hcompat d hd).2
      · exact forall_mem_singleton.mpr fun _ => rfl
    | some t =>
      obtain ⟨hschema, hrows⟩ := hharmless t hm
      have hwaiting : waitingRows other queue = [] :=
        waitingRows_eq_nil fun d hd => (hcompat d hd).1
      have happend := hagrees.append (c := .createTable other columns primaryKey) (by simp) rfl
      cases hagrees with
      | @filled _ t' u hpush hsame =>
        rw [hwaiting] at hpush
        cases hpush
        rwa [derived_eq_new (h.derived other u hu) (hsame.schema.trans hschema)
          (hsame.rows.trans hrows)] at happend
  · rw [lookup_setTable_of_ne _ _ _ heq]
    exact (h.agrees other).append (fun _ hname => heq (some.inj hname).symm) rfl

/-- An `INSERT` that memory accepts can be replayed behind what is in the log. -/
theorem Replays.logInsert (h : Replays store queue r) (hcreate : c.creates = none)
    (hrows : ∀ p ∈ c.inserts, store.Accepts p) :
    ∃ r', c.inserts.foldlM pushRow r = .ok r' ∧ Replays store (queue ++ [c]) r' := by
  have hfits : ∀ p ∈ c.inserts, r.Fits p := by
    intro p hp v hv
    obtain ⟨t, ht, hlen⟩ := hrows p hp
    have hagrees := h.agrees p.1
    rw [ht, hv] at hagrees
    cases hagrees with
    | filled hpush hsame => rw [hlen, hsame.schema, (pushAll_eq_ok hpush).1]
  obtain ⟨r', hr', hwf⟩ := pushRows_wf h.wf hfits
  refine ⟨r', hr', hwf, ?_, (pushRows_databases hr').trans h.databases, fun name => ?_⟩
  · exact foldlM_invariant (fun _ _ _ => pushRow_derived) h.derived hr'
  obtain ⟨hnone, hsome⟩ := pushRows_lookup hr' name
  have hagrees := h.agrees name
  generalize hm : store.tables.lookup name = m, hu : r.tables.lookup name = u at hagrees hnone hsome
  have hother : m = none → rowsFor name c.inserts = [] := by
    rintro rfl
    apply rowsFor_eq_nil.mpr
    intro p hp heq
    obtain ⟨t, ht, -⟩ := hrows p hp
    rw [heq, hm] at ht
    cases ht
  cases hagrees with
  | absent habsent =>
    rw [hnone rfl]
    exact (Agrees.absent habsent).append (fun _ => by simp [hcreate]) (hother rfl)
  | created hmem hall =>
    obtain ⟨u', hpush, hu'⟩ := hsome _ rfl
    rw [hother rfl] at hpush
    cases hpush
    rw [hu']
    exact (Agrees.created hmem hall).append (fun _ => by simp [hcreate]) (hother rfl)
  | @filled t t' u hpush hsame =>
    obtain ⟨u', hpush', hu'⟩ := hsome u rfl
    obtain ⟨t'', ht'', hsame'⟩ := Rel.of_ok_left
      (hpush' ▸ hsame.pushAll (rowsFor name c.inserts))
    rw [hu']
    refine .filled ?_ hsame'
    rw [waitingRows_append, foldlM_append, hpush, ok_bind]
    simpa [waitingRows] using ht''

theorem Replays.applyCreate (h : Replays store queue r)
    (hmem : .createTable name columns primaryKey ∈ queue)
    (hfree : store.tables.lookup name = none) (hlocks : ∀ d ∈ queue, name ∉ d.locks) :
    Replays (store.setTable name (Table.new columns primaryKey))
      (queue.erase (.createTable name columns primaryKey)) r := by
  refine ⟨h.wf, h.derived, h.databases, ?_⟩
  intro other
  have hagrees := h.agrees other
  by_cases heq : other = name
  · subst heq
    rw [lookup_setTable]
    rw [hfree] at hagrees
    generalize r.tables.lookup other = u at hagrees ⊢
    cases hagrees with
    | absent habsent => exact absurd rfl (habsent _ hmem)
    | created _ hall =>
      cases hall _ hmem rfl
      have hwaiting : waitingRows other
          (queue.erase (.createTable other columns primaryKey)) = [] :=
        waitingRows_eq_nil fun d hd => hlocks d (mem_of_mem_erase hd)
      exact .filled (by rw [hwaiting, foldlM_nil, pure_eq]) (Table.Same.refl _)
  · rw [lookup_setTable_of_ne _ _ _ heq]
    exact hagrees.erase (fun _ hname => heq (some.inj hname).symm)
      (waitingRows_erase_of_inserts_nil hmem rfl other)

theorem Replays.loseCreate (h : Replays store queue r)
    (hmem : .createTable name columns primaryKey ∈ queue)
    (htaken : store.tables.lookup name ≠ none) :
    Replays store (queue.erase (.createTable name columns primaryKey)) r := by
  refine ⟨h.wf, h.derived, h.databases, ?_⟩
  intro other
  refine (h.agrees other).erase (fun hnone hname => htaken ?_)
    (waitingRows_erase_of_inserts_nil hmem rfl other)
  rwa [some.inj hname]

theorem Replays.applyInsert (h : Replays store queue r) (hmem : c ∈ queue)
    (hcreate : c.creates = none)
    (hlocks : ∀ d ∈ queue.erase c, c.locks.Disjoint d.locks)
    (hpush : c.inserts.foldlM pushRow store = .ok store') :
    Replays store' (queue.erase c) r := by
  refine ⟨h.wf, h.derived, h.databases.trans (pushRows_databases hpush).symm, ?_⟩
  intro name
  obtain ⟨hnone, hsome⟩ := pushRows_lookup hpush name
  have hwaiting : waitingRows name queue =
      rowsFor name c.inserts ++ waitingRows name (queue.erase c) :=
    waitingRows_erase hmem fun d hd hc hd' => hlocks d hd hc hd'
  have hagrees := h.agrees name
  generalize store.tables.lookup name = m, r.tables.lookup name = u at hagrees hnone hsome ⊢
  cases hagrees with
  | absent habsent =>
    rw [hnone rfl]
    exact .absent fun d hd => habsent d (mem_of_mem_erase hd)
  | created hmem' hall =>
    rw [hnone rfl]
    refine .created ((mem_erase_of_ne ?_).mpr hmem') fun d hd =>
      hall d (mem_of_mem_erase hd)
    rintro rfl
    cases hcreate
  | @filled t t' u hpush' hsame =>
    obtain ⟨t₁, ht₁, hlookup⟩ := hsome t rfl
    rw [hwaiting, foldlM_append, ht₁, ok_bind] at hpush'
    rw [hlookup]
    exact .filled hpush' hsame

/-- Counters are not compared. -/
theorem Replays.same (h : Replays store queue r) (hsame : store.Same store') :
    Replays store' queue r := by
  refine ⟨h.wf, h.derived, h.databases.trans hsame.databases, ?_⟩
  intro name
  have hagrees := h.agrees name
  have htables := hsame.tables name
  generalize store.tables.lookup name = m, store'.tables.lookup name = m',
    r.tables.lookup name = u at hagrees htables ⊢
  cases htables with
  | none => exact hagrees
  | some htt =>
    cases hagrees with
    | filled hpush h =>
      obtain ⟨t'', ht'', hsame'⟩ := Rel.of_ok_left
        (hpush ▸ htt.pushAll (waitingRows name queue))
      exact .filled ht'' (h.trans hsame')

end

structure Sys.Apart (s : Sys) : Prop where
  wf : s.store.Wf
  calls : ∀ c ∈ s.checked ++ s.queue, c.CreatesOrInserts ∧ ∀ p ∈ c.inserts, s.store.Accepts p
  locks : (s.checked ++ s.queue).Pairwise fun c d => c.locks.Disjoint d.locks
  replied : ∀ a ∈ s.replies, a.2 = .ok () → ∀ p ∈ a.1.inserts, s.store.Contains p
  logged : ∃ log r, Holds s.file log ∧ log.foldlM applyEntry Store.empty = .ok r ∧
    Replays s.store s.queue r

section Invariant
variable {policy : SyncPolicy} {s s' : Sys} {c : Call}
variable {a : Call × Result Unit}

theorem Sys.Apart.reply (h : s.Apart) (ha : a.2 = .ok () → ∀ p ∈ a.1.inserts, s.store.Contains p) :
    Sys.Apart { s with replies := s.replies ++ [a] } := by
  refine ⟨h.wf, h.calls, h.locks, ?_, h.logged⟩
  exact forall_mem_append.mpr ⟨h.replied, forall_mem_singleton.mpr ha⟩

theorem Sys.Apart.check (h : s.Apart) (hc : c.CreatesOrInserts) (hlock : ¬ s.Locked c)
    (hcheck : MysqlRust.check s.store c = .ok true) :
    Sys.Apart { s with checked := s.checked ++ [c] } := by
  have hperm : (s.checked ++ [c] ++ s.queue).Perm (s.checked ++ s.queue ++ [c]) := by
    rw [append_assoc, append_assoc]
    exact perm_append_comm.append_left s.checked
  refine ⟨h.wf, fun d hd => ?_, ?_, h.replied, h.logged⟩
  · refine forall_mem_append.mpr ⟨h.calls, ?_⟩ d (hperm.mem_iff.mp hd)
    exact forall_mem_singleton.mpr ⟨hc, accepts_of_check hcheck⟩
  · refine (hperm.pairwise_iff fun h => h.symm).mpr
      (pairwise_append.mpr ⟨h.locks, pairwise_singleton _ _, ?_⟩)
    intro d hd e he n hnd hne
    rw [mem_singleton.mp he] at hne
    exact hlock ⟨d, hd, n, hnd, hne⟩

theorem Sys.Apart.enqueue (h : s.Apart) (hc : c ∈ s.checked)
    (hlen : c.entry.encode.length < 2 ^ 32) (hharmless : Harmless s.store c)
    (hcompat : ∀ d ∈ s.queue, Compatible d c) : (s.enqueue c).Apart := by
  obtain ⟨log, r, hholds, hr, hreplays⟩ := h.logged
  obtain ⟨hkind, hrows⟩ := h.calls c (mem_append_left _ hc)
  have hlogged : ∃ r', applyEntry r c.entry = .ok r' ∧ Replays s.store (s.queue ++ [c]) r' := by
    obtain ⟨name, columns, primaryKey, rfl⟩ | ⟨hcreate, hentry, -⟩ := hkind.cases
    · exact ⟨_, rfl, hreplays.logCreate hharmless hcompat⟩
    · rw [hentry]
      exact hreplays.logInsert hcreate hrows
  obtain ⟨r', hr', hreplays'⟩ := hlogged
  have hperm := enqueue_perm hc
  exact ⟨h.wf, fun d hd => h.calls d (hperm.mem_iff.mp hd),
    (hperm.pairwise_iff fun h => h.symm).mpr h.locks, h.replied,
    log ++ [c.entry], r', hholds.enqueue hlen, foldlM_concat hr hr', hreplays'⟩

theorem Sys.Apart.dequeue (h : s.Apart) {store : Store} (hwf : store.Wf)
    (hgrows : s.store.Grows store) (ha : a.2 = .ok () → ∀ p ∈ a.1.inserts, store.Contains p)
    (hreplays : ∀ r, Replays s.store s.queue r → Replays store (s.queue.erase c) r) :
    Sys.Apart
      { s with store, queue := s.queue.erase c, replies := s.replies ++ [a] } := by
  obtain ⟨log, r, hholds, hr, hreplay⟩ := h.logged
  have hsub : (s.checked ++ s.queue.erase c).Sublist (s.checked ++ s.queue) :=
    (erase_sublist).append_left s.checked
  refine ⟨hwf, fun d hd => ?_, h.locks.sublist hsub, ?_, log, r, hholds, hr, hreplays r hreplay⟩
  · obtain ⟨hkind, hrows⟩ := h.calls d (hsub.subset hd)
    exact ⟨hkind, fun p hp => hgrows.accepts (hrows p hp)⟩
  · refine forall_mem_append.mpr ⟨fun b hb hok p hp => ?_, forall_mem_singleton.mpr ha⟩
    exact hgrows.contains (h.replied b hb hok p hp)

theorem Sys.Apart.apply (h : s.Apart) (hstep : s.step policy (.apply c) = some s') : s'.Apart := by
  obtain ⟨hc, hstep⟩ := step_apply hstep
  obtain ⟨hkind, hrows⟩ := h.calls c (mem_append_right _ hc)
  obtain ⟨name, columns, primaryKey, rfl⟩ | ⟨hcreate, -, hinsert⟩ := hkind.cases
  · by_cases hmem : name ∈ s.store.tables
    · have htaken : s.store.tables.lookup name ≠ none := by
        rw [← isSome_iff_ne_none, Finmap.lookup_isSome]
        exact hmem
      obtain ⟨store, hstore, rfl⟩ | ⟨e, -, rfl⟩ := hstep
      · simp [MysqlRust.apply, hmem] at hstore
      · exact h.dequeue h.wf (Store.Same.refl _).grows (by simp) fun r hr =>
          hr.loseCreate hc htaken
    · have hfree : s.store.tables.lookup name = none := Finmap.lookup_eq_none.mpr hmem
      have hlocks : ∀ d ∈ s.queue, name ∉ d.locks := by
        intro d hd hname
        obtain ⟨p, hp, rfl⟩ := mem_map.mp hname
        obtain ⟨t, ht, -⟩ := (h.calls d (mem_append_right _ hd)).2 p hp
        rw [hfree] at ht
        cases ht
      obtain ⟨store, hstore, rfl⟩ | ⟨e, he, rfl⟩ := hstep
      · simp only [MysqlRust.apply, hmem, if_false, pure_eq, ok.injEq] at hstore
        subst hstore
        exact h.dequeue (h.wf.setTable (Table.new_wf _ _) name) (setTable_grows hfree _)
          (fun _ p hp => by cases hp) fun r hr => hr.applyCreate hc hfree hlocks
      · simp [MysqlRust.apply, hmem] at he
  · obtain ⟨store, hstore, hwf⟩ := pushRows_wf h.wf fun p hp => (hrows p hp).fits
    have hqueue : (c :: s.queue.erase c).Pairwise fun c d => c.locks.Disjoint d.locks :=
      ((perm_cons_erase hc).pairwise_iff fun h => h.symm).mp
        (pairwise_append.mp h.locks).2.1
    rw [hinsert s.store hrows, hstore] at hstep
    obtain ⟨store', hstore', rfl⟩ | ⟨e, he, rfl⟩ := hstep
    · cases hstore'
      exact h.dequeue hwf (pushRows_grows hstore) (fun _ => pushRows_contains hrows hstore)
        fun r hr => hr.applyInsert hc hcreate (pairwise_cons.mp hqueue).1 hstore
    · cases he

theorem step_apart (a : Action) (h : s.Apart) (hg : CreatesApart s a)
    (hstep : s.step policy a = some s') : s'.Apart := by
  cases a with
  | check c =>
    obtain ⟨hlock, ⟨hcheck, rfl⟩ | ⟨hcheck, rfl⟩ | ⟨e, rfl⟩⟩ := step_check hstep
    · exact h.check hg hlock hcheck
    · exact h.reply fun _ p hp => by simp [inserts_of_check_false hcheck] at hp
    · exact h.reply nofun
  | write batch io =>
    obtain ⟨rfl, hframable, hharmless, hcompat⟩ := hg
    apply write_invariant h hstep
    intro u c rest hu hstore hc hbatch hqueue
    rw [← hqueue] at hcompat
    exact hu.enqueue hc (hframable c.entry (mem_map_of_mem hbatch))
      (hstore ▸ hharmless c hbatch)
      fun d hd => (pairwise_append.mp hcompat).2.2 d hd c mem_cons_self
  | apply c => exact h.apply hstep
  | nextAutoIncrement table =>
    rcases step_nextAutoIncrement hstep with rfl | ⟨store, v, hn, rfl⟩
    · exact h
    · obtain ⟨hwf, hsame⟩ := nextAutoIncrement_eq_ok h.wf hn
      obtain ⟨log, r, hholds, hr, hreplays⟩ := h.logged
      exact ⟨hwf, fun c hc => ⟨(h.calls c hc).1, fun p hp => hsame.grows.accepts ((h.calls c hc).2 p hp)⟩,
        h.locks, fun b hb hok p hp => hsame.grows.contains (h.replied b hb hok p hp),
        log, r, hholds, hr, hreplays.same hsame⟩

end Invariant

theorem Replays.contains {store r : Store} {queue : List Call} (h : Replays store queue r)
    {p : String × Row} (hp : store.Contains p) : r.Contains p := by
  obtain ⟨t, ht, hrow⟩ := hp
  have hagrees := h.agrees p.1
  rw [ht] at hagrees
  generalize hu : r.tables.lookup p.1 = u at hagrees
  cases hagrees with
  | filled hpush hsame =>
    refine ⟨_, hu, ?_⟩
    rw [hsame.rows, (pushAll_eq_ok hpush).2]
    exact mem_append_left _ hrow

theorem Replays.quiescent {store r : Store} (h : Replays store [] r) : r.Same store := by
  refine ⟨fun name => ?_, h.databases⟩
  have hagrees := h.agrees name
  generalize store.tables.lookup name = m, r.tables.lookup name = u at hagrees ⊢
  cases hagrees with
  | absent => exact .none
  | created hmem => cases hmem
  | filled hpush hsame =>
    cases hpush
    exact .some hsame

/-- In every state of a run the log opens and holds every row whose insert returned `Ok`;
when no acknowledged call waits to be applied it opens to the tables in memory. -/
theorem open_after_creates (policy : SyncPolicy) {content : Option (List UInt8)} {st : Store}
    {file : List UInt8} (hopen : Log.open applyEntry Store.empty content = .ok (st, file))
    (hst : st.Wf) {s : Sys}
    (hrun : Runs.Reach (Sys.step policy) CreatesApart (.start st file) s) :
    ∃ r, Log.open applyEntry Store.empty (some s.file) = .ok (r, s.file) ∧
      (∀ a ∈ s.replies, a.2 = .ok () → ∀ p ∈ a.1.inserts, r.Contains p) ∧
      (s.queue = [] → r.Same s.store) := by
  obtain ⟨log, hholds, hlog⟩ := holds_of_open hopen
  have hagrees : ∀ name, Agrees [] name (st.tables.lookup name) (st.tables.lookup name) := by
    intro name
    cases st.tables.lookup name with
    | none => exact .absent nofun
    | some t => exact .filled rfl (Table.Same.refl t)
  have hderived : st.Derived :=
    foldlM_invariant (fun _ _ _ => applyEntry_derived) all_empty hlog
  have hstart : (Sys.start st file).Apart :=
    ⟨hst, by simp [Sys.start], .nil, by simp [Sys.start], log, st, hholds, hlog, hst, hderived, rfl,
      hagrees⟩
  have hinv := hrun.invariant hstart fun _ a _ h hg hstep => step_apart a h hg hstep
  obtain ⟨log', r, hholds', hr, hreplays⟩ := hinv.logged
  have hopen' : Log.open applyEntry Store.empty (some s.file) = .ok (r, s.file) := by
    rw [hholds'.open_eq, hr, ok_bind]
  refine ⟨r, hopen', fun a ha hok p hp => hreplays.contains (hinv.replied a ha hok p hp), ?_⟩
  intro hqueue
  rw [hqueue] at hreplays
  exact hreplays.quiescent

def createKeyed : Call := .createTable "t" [⟨"id", .int, false, false⟩] (some "id")

def insertSeven : Call := .insertRow "t" [.int 7]

def apartSchedule : List Action :=
  [.check createKeyed, .check createKeyed, .write [createKeyed, createKeyed] .done,
    .apply createKeyed, .apply createKeyed, .check insertSeven, .write [insertSeven] .done,
    .apply insertSeven]

theorem open_apartSchedule :
    ∃ s, apartSchedule.foldlM (Sys.step .always) (.start Store.empty []) = some s ∧
      ∃ r, Log.open applyEntry Store.empty (some s.file) = .ok (r, s.file) ∧
        (∀ a ∈ s.replies, a.2 = .ok () → ∀ p ∈ a.1.inserts, r.Contains p) ∧
        (s.queue = [] → r.Same s.store) := by
  have hopen : Log.open applyEntry Store.empty none = .ok (Store.empty, []) := rfl
  have hallowed : Runs.Allowed (Sys.step .always) CreatesApart (.start Store.empty [])
      apartSchedule := by
    decide +kernel
  obtain ⟨s, hs⟩ : ∃ s, apartSchedule.foldlM (Sys.step .always) (.start Store.empty []) = some s :=
    ⟨_, rfl⟩
  exact ⟨s, hs, open_after_creates .always hopen all_empty (hallowed.reach hs)⟩

def lateSchedule : List Action :=
  [.check createKeyed, .check createKeyed, .write [createKeyed] .done, .apply createKeyed,
    .check insertSeven, .write [insertSeven] .done, .apply insertSeven,
    .write [createKeyed] .done, .apply createKeyed]

def lateLog : List Entry := [createKeyed.entry, insertSeven.entry, createKeyed.entry]

/-- The insert returned `Ok` and its row is in memory; after a restart the table is empty. -/
theorem lateSchedule_loses_row :
    ∃ s, lateSchedule.foldlM (Sys.step .always) (.start Store.empty []) = some s ∧
      s.Quiescent ∧ (insertSeven, .ok ()) ∈ s.replies ∧
      (s.store.tables.lookup "t").map Table.rows = some [[.int 7]] ∧
      ∃ r, Log.open applyEntry Store.empty (some s.file) = .ok (r, s.file) ∧
        (r.tables.lookup "t").map Table.rows = some [] := by
  obtain ⟨r, hopen, hrows⟩ : ∃ r,
      Log.open applyEntry Store.empty (some (logBytes lateLog)) = .ok (r, logBytes lateLog) ∧
      (r.tables.lookup "t").map Table.rows = some [] :=
    open_rows (by decide) (by decide +kernel)
  have hfile : Sys.file <$> lateSchedule.foldlM (Sys.step .always) (.start Store.empty []) =
      some (logBytes lateLog) := by
    decide +kernel
  refine ⟨_, rfl, ⟨rfl, rfl⟩, by decide, by decide +kernel, r, ?_, hrows⟩
  rw [some.inj hfile, hopen]

end MysqlRust
