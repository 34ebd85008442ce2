import MysqlRust.Storage.Admission
import MysqlRust.Storage.FailedWrites

/-! # Inserting a batch

A batch is validated as a whole, logged as one record and then applied without further
checks. Run alone it is accepted exactly when its rows fit their tables and bring new keys,
and it is applied in full or not at all.
-/
namespace MysqlRust

open List Outcome

section
variable {t u : Table}

/-- The table comes from a new one by pushing rows, and by reservations of counter values. -/
def Table.Built (t : Table) : Prop := ∃ u : Table, u.Derived ∧ u.Same t

def Store.Built (s : Store) : Prop := s.All Table.Built

/-- The index knows the key of every row, and points at a row with the key it is asked for. -/
structure Table.Faithful (t : Table) : Prop where
  cells : ∀ i, t.primaryKeyIndex = some i → ∀ row ∈ t.rows, ∃ key, row[i]? = some key ∧ key ∈ t.index
  pointed : ∀ i, t.primaryKeyIndex = some i → ∀ key pos, t.index.lookup key = some pos →
    ∃ row, t.rows[pos]? = some row ∧ row[i]? = some key
  unkeyed : t.primaryKeyIndex = none → t.index = ∅

theorem Table.placed_grown : Table.Grown Table.Placed where
  new columns primaryKey := (new_wf columns primaryKey).placed
  push _ _ _ h hpush := h.of_push hpush

theorem Table.Faithful.push {t' : Table} {row : Row} (h : t.Faithful)
    (hpush : t.pushTrusted row = .ok t') : t'.Faithful := by
  obtain ⟨-, hkey, hrows⟩ := pushTrusted_eq_ok hpush
  rcases indexWith_eq_ok (pushTrusted_index hpush) with ⟨j, key', hj, hcell, hindex⟩ | ⟨hnone, hindex⟩
  · refine ⟨fun i hi r hr => ?_, fun i hi key pos hpos => ?_, fun hnone => ?_⟩
    · cases (hkey ▸ hi).symm.trans hj
      rw [hindex]
      rcases mem_append.mp (hrows ▸ hr) with hr | hr
      · obtain ⟨key, hold, hmem⟩ := h.cells j hj r hr
        exact ⟨key, hold, Finmap.mem_insert.mpr (.inr hmem)⟩
      · exact ⟨key', mem_singleton.mp hr ▸ hcell, Finmap.mem_insert.mpr (.inl rfl)⟩
    · cases (hkey ▸ hi).symm.trans hj
      rw [hindex] at hpos
      rw [hrows]
      by_cases heq : key = key'
      · subst heq
        rw [Finmap.lookup_insert] at hpos
        cases hpos
        exact ⟨row, by simp, hcell⟩
      · rw [Finmap.lookup_insert_of_ne _ heq] at hpos
        obtain ⟨r, hr, hr'⟩ := h.pointed j hj key pos hpos
        exact ⟨r, by rw [getElem?_append_left (List.getElem?_eq_some_iff.mp hr).1, hr], hr'⟩
    · cases hj.symm.trans (hkey ▸ hnone)
  · refine ⟨fun i hi => ?_, fun i hi => ?_, fun _ => ?_⟩
    · cases (hkey ▸ hi).symm.trans hnone
    · cases (hkey ▸ hi).symm.trans hnone
    · rw [hindex, h.unkeyed hnone]

theorem Table.faithful_grown : Table.Grown Table.Faithful where
  new columns primaryKey := ⟨by simp [Table.new], by simp [Table.new], fun _ => rfl⟩
  push _ _ _ h hpush := h.push hpush

theorem Table.built_grown : Table.Grown Table.Built where
  new columns primaryKey := ⟨_, new_derived columns primaryKey, Same.refl _⟩
  push t row t' h hpush := by
    obtain ⟨u, hu, hsame⟩ := h
    have hrel := hsame.pushTrusted row
    rw [hpush] at hrel
    obtain ⟨u', hu', hsame'⟩ := hrel.of_ok_right
    exact ⟨u', hu.pushTrusted hu', hsame'⟩

theorem Table.Built.placed (h : t.Built) : t.Placed := by
  obtain ⟨u, hu, hsame⟩ := h
  obtain ⟨hkey, hcounter⟩ := placed_grown.derived hu
  exact ⟨by rw [← hsame.primaryKeyIndex, ← hsame.schema, hkey],
    by rw [← hsame.counterIndex, ← hsame.schema, hcounter]⟩

theorem Table.Built.faithful (h : t.Built) : t.Faithful := by
  obtain ⟨u, hu, hsame⟩ := h
  obtain ⟨hcells, hpointed, hunkeyed⟩ := faithful_grown.derived hu
  rw [hsame.primaryKeyIndex] at hcells hpointed hunkeyed
  rw [hsame.index] at hcells hpointed hunkeyed
  rw [hsame.rows] at hcells hpointed
  exact ⟨hcells, hpointed, hunkeyed⟩

theorem Table.Built.mem_index_iff (h : t.Built) {i : Nat} (hi : t.schema.keyIndex = some i)
    (key : Value) : key ∈ t.index ↔ ∃ row ∈ t.rows, row[i]? = some key := by
  rw [← h.placed.keyIndex] at hi
  constructor
  · intro hmem
    obtain ⟨pos, hpos⟩ := Finmap.mem_iff.mp hmem
    obtain ⟨row, hrow, hcell⟩ := h.faithful.pointed i hi key pos hpos
    exact ⟨row, mem_of_getElem? hrow, hcell⟩
  · rintro ⟨row, hrow, hcell⟩
    obtain ⟨key', hkey', hmem⟩ := h.faithful.cells i hi row hrow
    cases hcell.symm.trans hkey'
    exact hmem

variable {s : Store} {rows : List (String × Row)}

/-- Every row has a table of its width, and brings a key that no row of the table and no
other row of the batch for it has. -/
structure BatchFits (s : Store) (rows : List (String × Row)) : Prop where
  width : ∀ p ∈ rows, ∃ t, s.tables.lookup p.1 = some t ∧ p.2.length = t.schema.columns.length
  distinct : ∀ name t i, s.tables.lookup name = some t → t.schema.keyIndex = some i →
    ((rowsFor name rows).map fun row => row[i]?).Nodup
  absent : ∀ name t i, s.tables.lookup name = some t → t.schema.keyIndex = some i →
    ∀ row ∈ rowsFor name rows, ∀ old ∈ t.rows, old[i]? ≠ row[i]?

theorem Store.Built.placed (hs : s.Built) : s.All Table.Placed := fun name t ht =>
  (hs name t ht).placed

theorem admits_iff_fits (hs : s.Built) : s.Admits rows ↔ BatchFits s rows := by
  constructor
  · intro h
    refine ⟨fun p hp => (h.row p hp).1, ?_, ?_⟩
    · intro name t i ht hi
      exact ((h.table hs.placed ht).keys i hi).1
    · intro name t i ht hi row hrow old hold heq
      have hadmits := h.table hs.placed ht
      have hlt : i < row.length := hadmits.width row hrow ▸ Table.keyIndex_lt hi
      have hcell : row[i]? = some row[i] := getElem?_eq_getElem hlt
      refine (hadmits.keys i hi).2 row hrow row[i] hcell ?_
      exact ((hs name t ht).mem_index_iff hi row[i]).mpr ⟨old, hold, heq.trans hcell⟩
  · intro h
    refine admits_of_tables hs.placed fun p hp => ?_
    obtain ⟨t, ht, -⟩ := h.width p hp
    refine ⟨t, ht, ?_, ?_⟩
    · intro row hrow
      obtain ⟨⟨name, r⟩, hmem, rfl⟩ := mem_map.mp hrow
      obtain ⟨hmem, hname⟩ := mem_filter.mp hmem
      obtain ⟨u, hu, hlen⟩ := h.width _ hmem
      rw [of_decide_eq_true hname] at hu
      cases ht.symm.trans hu
      exact hlen
    · intro i hi
      refine ⟨h.distinct p.1 t i ht hi, fun row hrow key hcell hmem => ?_⟩
      obtain ⟨old, hold, hold'⟩ := ((hs p.1 t ht).mem_index_iff hi key).mp hmem
      exact h.absent p.1 t i ht hi row hrow old hold (hold'.trans hcell.symm)

/-- A batch goes on to the log exactly when it fits; otherwise it is refused. -/
theorem check_batch (hs : s.Built) (hrows : rows ≠ []) :
    check s (.insertRows rows) = .ok true ∧ BatchFits s rows ∨
      (∃ e, check s (.insertRows rows) = .err e) ∧ ¬ BatchFits s rows := by
  have hiff : check s (.insertRows rows) = .ok true ↔ rows ≠ [] ∧ BatchFits s rows :=
    (check_insertRows_iff hs.placed).trans (and_congr_right fun _ => admits_iff_fits hs)
  cases hcheck : check s (.insertRows rows) with
  | panic => exact absurd hcheck (checkBatch_post hs.placed rows).ne_panic
  | err e =>
    refine .inr ⟨⟨e, rfl⟩, fun hfits => ?_⟩
    cases hcheck.symm.trans (hiff.mpr ⟨hrows, hfits⟩)
  | ok go =>
    have hgo : go = true := by
      rw [check, if_neg hrows] at hcheck
      obtain ⟨seen, -, hpure⟩ := bind_eq_ok.mp hcheck
      exact (ok.inj hpure).symm
    subst hgo
    exact .inl ⟨rfl, (hiff.mp hcheck).2⟩

variable {s' : Store}

structure Appended (s : Store) (rows : List (String × Row)) (s' : Store) : Prop where
  databases : s'.databases = s.databases
  missing : ∀ name, s.tables.lookup name = none → s'.tables.lookup name = none
  tables : ∀ name t, s.tables.lookup name = some t → ∃ t', s'.tables.lookup name = some t' ∧
    t'.schema = t.schema ∧ t'.rows = t.rows ++ rowsFor name rows ∧ (rowsFor name rows = [] → t' = t)

theorem pushRows_placed (hs : s.All Table.Placed) (hrows : ∀ p ∈ rows, s.Fits p) :
    ∃ s', rows.foldlM pushRow s = .ok s' := by
  induction rows generalizing s with
  | nil => exact ⟨s, rfl⟩
  | cons p rows ih =>
    obtain ⟨hp, hrows⟩ := forall_mem_cons.mp hrows
    have hstep : ∃ s₁, pushRow s p = .ok s₁ := by
      unfold pushRow
      cases ht : s.tables.lookup p.1 with
      | none => exact ⟨s, rfl⟩
      | some t =>
        obtain ⟨t', ht'⟩ := (hs p.1 t ht).pushTrusted (hp t ht)
        exact ⟨s.setTable p.1 t', by simp [ht']⟩
    obtain ⟨s₁, hs₁⟩ := hstep
    have hplaced := pushRow_all Table.placed_grown.push hs hs₁
    obtain ⟨s', hs'⟩ := ih hplaced fun q hq => pushRow_fits hs₁ (hrows q hq)
    exact ⟨s', by rw [foldlM_cons, hs₁, ok_bind, hs']⟩

theorem appended_of_push (h : rows.foldlM pushRow s = .ok s') : Appended s rows s' where
  databases := pushRows_databases h
  missing name := (pushRows_lookup h name).1
  tables name t ht := by
    obtain ⟨t', hpush, hlookup⟩ := (pushRows_lookup h name).2 t ht
    obtain ⟨hschema, hall⟩ := pushAll_eq_ok hpush
    refine ⟨t', hlookup, hschema, hall, fun hnone => ?_⟩
    rw [hnone] at hpush
    exact (ok.inj hpush).symm

theorem apply_batch (hs : s.Built) (h : BatchFits s rows) :
    ∃ s', apply s (.insertRows rows) = .ok s' ∧ Appended s rows s' := by
  have hfits : ∀ p ∈ rows, s.Fits p := by
    intro p hp t ht
    obtain ⟨u, hu, hlen⟩ := h.width p hp
    cases ht.symm.trans hu
    exact hlen
  obtain ⟨s', hs'⟩ := pushRows_placed hs.placed hfits
  exact ⟨s', hs', appended_of_push hs'⟩

end

section Alone
variable {policy : SyncPolicy} {s : Sys} {rows : List (String × Row)}
variable {c : Call}

def Sys.callAlone (policy : SyncPolicy) (s : Sys) (c : Call) (io : Io) : Option Sys := do
  let s₁ ← s.step policy (.check c)
  if c ∈ s₁.checked then do
    let s₂ ← s₁.step policy (.write [c] io)
    if c ∈ s₂.queue then s₂.step policy (.apply c) else pure s₂
  else pure s₁

theorem Sys.Quiescent.not_locked (hs : s.Quiescent) (c : Call) : ¬ s.Locked c := by
  simp [Sys.Locked, hs.1, hs.2]

theorem callAlone_refused {e : Error} (hs : s.Quiescent) (hcheck : check s.store c = .err e)
    (io : Io) :
    s.callAlone policy c io = some { s with replies := s.replies ++ [(c, .err e)] } := by
  simp [Sys.callAlone, Sys.step, hs.not_locked c, hcheck, hs.1]

theorem callAlone_checked (hs : s.Quiescent) (hcheck : check s.store c = .ok true) (io : Io) :
    s.callAlone policy c io = (do
      let s₂ ← Sys.step policy { s with checked := [c] } (.write [c] io)
      if c ∈ s₂.queue then s₂.step policy (.apply c) else pure s₂) := by
  simp [Sys.callAlone, Sys.step, hs.not_locked c, hcheck, hs.1]

theorem callAlone_written {store : Store} (hs : s.Quiescent) (hcheck : check s.store c = .ok true)
    (happly : apply s.store c = .ok store) {io : Io} (hio : io.Acked policy) :
    s.callAlone policy c io = some { s with
      store
      file := s.file ++ frameRecord c.entry.encode
      replies := s.replies ++ [(c, .ok ())] } := by
  have hresult : (Log.writeFramedBatch policy s.file (frameRecord c.entry.encode) io).2 = .ok () :=
    writeFramedBatch_ok_iff.mpr hio
  have hwrite : Sys.step policy { s with checked := [c] } (.write [c] io) =
      some { s with file := s.file ++ frameRecord c.entry.encode, queue := [c] } := by
    simp [Sys.step, hresult, ackOf, reached_of_ok hresult, hs.1, hs.2]
  rw [callAlone_checked hs hcheck, hwrite]
  simp [Sys.step, happly, hs.2]

theorem callAlone_failed (hs : s.Quiescent) (hcheck : check s.store c = .ok true) {io : Io}
    (hio : ¬ io.Acked policy) :
    ∃ file e, s.callAlone policy c io = some { s with
      file
      replies := s.replies ++ [(c, .err e)] } := by
  cases hresult : (Log.writeFramedBatch policy s.file (frameRecord c.entry.encode) io).2 with
  | ok u => exact absurd (writeFramedBatch_ok_iff.mp hresult) hio
  | panic => exact absurd hresult (writeFramedBatch_ne_panic policy s.file _ io)
  | err e =>
    refine ⟨s.file ++ io.reached (frameRecord c.entry.encode), .io e.display, ?_⟩
    rw [callAlone_checked hs hcheck]
    simp [Sys.step, hresult, ackOf, hs.1, hs.2]

/-- Run alone, a batch is accepted by its check exactly when it fits. It is then answered
`Ok` exactly when its record is written, and has appended its rows and one record; with any
other answer the tables are as they were. -/
theorem insertRows_alone (policy : SyncPolicy) {s : Sys} (hs : s.Quiescent) (hbuilt : s.store.Built)
    {rows : List (String × Row)} (hrows : rows ≠ []) (io : Io) :
    (check s.store (.insertRows rows) = .ok true ↔ BatchFits s.store rows) ∧
    ∃ s' reply, s.callAlone policy (.insertRows rows) io = some s' ∧
      s'.replies = s.replies ++ [(.insertRows rows, reply)] ∧
      (reply = .ok () ↔ BatchFits s.store rows ∧ io.Acked policy) ∧
      (reply = .ok () → Appended s.store rows s'.store ∧
        s'.file = s.file ++ frameRecord (Entry.transaction rows).encode) ∧
      (reply ≠ .ok () → s'.store = s.store) := by
  rcases check_batch hbuilt hrows with ⟨hcheck, hfits⟩ | ⟨⟨e, hcheck⟩, hfits⟩
  · refine ⟨iff_of_true hcheck hfits, ?_⟩
    by_cases hio : io.Acked policy
    · obtain ⟨store, happly, happended⟩ := apply_batch hbuilt hfits
      refine ⟨_, .ok (), callAlone_written hs hcheck happly hio, rfl, by simp [hfits, hio], ?_, ?_⟩
      · intro _
        exact ⟨happended, rfl⟩
      · intro h
        exact absurd rfl h
    · obtain ⟨file, e, hcall⟩ := callAlone_failed hs hcheck hio
      exact ⟨_, .err e, hcall, rfl, by simp [hio], by simp, fun _ => rfl⟩
  · refine ⟨iff_of_false (by simp [hcheck]) hfits, ?_⟩
    exact ⟨_, .err e, callAlone_refused hs hcheck io, rfl, by simp [hfits], by simp, fun _ => rfl⟩

def keyedAndPlain : Store :=
  (Store.empty.setTable "t" (Table.new [⟨"id", .int, false, false⟩] (some "id"))).setTable "u"
    (Table.new [⟨"a", .int, true, false⟩] none)

theorem keyedAndPlain_built : keyedAndPlain.Built := by
  have hnew := Table.built_grown.new
  exact (all_empty.setTable (hnew _ _) "t").setTable (hnew _ _) "u"

/-- Rows of two tables in turns. -/
theorem insertRows_inTurns :
    let rows : List (String × Row) := [("t", [.int 1]), ("u", [.int 5]), ("t", [.int 2])]
    ∃ s', (Sys.start keyedAndPlain []).callAlone .always (.insertRows rows) .done = some s' ∧
      Appended keyedAndPlain rows s'.store ∧
      s'.file = frameRecord (Entry.transaction rows).encode := by
  intro rows
  obtain ⟨hcheck, s', reply, hcall, -, hok, happended, -⟩ :=
    insertRows_alone .always (s := Sys.start keyedAndPlain []) ⟨rfl, rfl⟩ keyedAndPlain_built
      (show rows ≠ [] by simp [rows]) .done
  have hfits : BatchFits keyedAndPlain rows := hcheck.mp (by decide)
  obtain ⟨happended, hfile⟩ := happended (hok.mpr ⟨hfits, trivial⟩)
  refine ⟨s', hcall, happended, ?_⟩
  rw [hfile, Sys.start, nil_append]

end Alone

end MysqlRust
