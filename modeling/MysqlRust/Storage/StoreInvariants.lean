import MysqlRust.Storage.Engine

/-! # What the engine keeps

Three facts about every table of a store: it is well formed, it is derived from its schema
and rows, and two stores agree up to counter values. Each is kept by one replayed record;
a call that passes its check also applies.
-/
namespace MysqlRust

open Outcome List

namespace Store

def All (P : Table → Prop) (s : Store) : Prop := ∀ name t, s.tables.lookup name = some t → P t

def Wf (s : Store) : Prop := s.All Table.Wf

def Derived (s : Store) : Prop := s.All Table.Derived

/-- Equal stores up to the values of the `AUTO_INCREMENT` counters. -/
structure Same (s u : Store) : Prop where
  tables : ∀ name, Option.Rel Table.Same (s.tables.lookup name) (u.tables.lookup name)
  databases : s.databases = u.databases

def Fits (s : Store) (p : String × Row) : Prop :=
  ∀ t, s.tables.lookup p.1 = some t → p.2.length = t.schema.columns.length

def FitsEntry (s : Store) : Entry → Prop
  | .insertRow table row => s.Fits (table, row)
  | .transaction rows => ∀ p ∈ rows, s.Fits p
  | _ => True

end Store

section
variable {P : Table → Prop} {s s' : Store}

theorem all_empty : Store.empty.All P := by
  intro name t h
  simp [Store.empty] at h

theorem Store.All.setTable (h : s.All P) {t : Table} (ht : P t) (name : String) :
    (s.setTable name t).All P := by
  intro other u hu
  by_cases heq : other = name
  · subst heq
    rw [lookup_setTable] at hu
    cases hu
    exact ht
  · rw [lookup_setTable_of_ne s name t heq] at hu
    exact h other u hu

theorem Store.Wf.placed (h : s.Wf) : s.All Table.Placed := fun name t ht => (h name t ht).placed

theorem pushRow_all (hP : ∀ t row t', P t → Table.pushTrusted t row = .ok t' → P t') {s' : Store}
    {p : String × Row} (hs : s.All P) (h : pushRow s p = .ok s') : s'.All P := by
  rcases pushRow_eq_ok h with ⟨-, rfl⟩ | ⟨t, t', ht, hpush, rfl⟩
  · exact hs
  · exact hs.setTable (hP t p.2 t' (hs _ _ ht) hpush) p.1

theorem pushRow_derived {s s' : Store} {p : String × Row} (hs : s.Derived)
    (h : pushRow s p = .ok s') : s'.Derived :=
  pushRow_all (fun _ _ _ ht hpush => ht.pushTrusted hpush) hs h

/-- Replay keeps every table derived from its schema and rows. -/
theorem applyEntry_derived {s s' : Store} {e : Entry} (hs : s.Derived)
    (h : applyEntry s e = .ok s') : s'.Derived := by
  cases e with
  | createTable table columns primaryKey =>
    cases h
    exact hs.setTable (Table.new_derived columns primaryKey) table
  | insertRow table row => exact pushRow_derived hs h
  | transaction rows => exact foldlM_invariant (fun _ _ _ => pushRow_derived) hs h
  | createDatabase name =>
    cases h
    exact hs
  | dropDatabase name =>
    cases h
    exact hs
  | alterTable table change =>
    rcases applyAlter_eq_ok h with rfl | ⟨t, altered, -, haltered, rfl⟩
    · exact hs
    · exact hs.setTable (computeAlteredTable_derived haltered) table

theorem pushRow_fits {p q : String × Row} (h : pushRow s p = .ok s') (hq : s.Fits q) :
    s'.Fits q := by
  rcases pushRow_eq_ok h with ⟨-, rfl⟩ | ⟨t, t', ht, hpush, rfl⟩
  · exact hq
  · intro u hu
    by_cases heq : q.1 = p.1
    · rw [heq, lookup_setTable] at hu
      cases hu
      rw [(Table.pushTrusted_eq_ok hpush).1]
      exact hq t (heq ▸ ht)
    · rw [lookup_setTable_of_ne _ _ _ heq] at hu
      exact hq u hu

theorem pushRow_wf {p : String × Row} (hs : s.Wf) (hp : s.Fits p) :
    ∃ s', pushRow s p = .ok s' ∧ s'.Wf := by
  unfold pushRow
  split
  · rename_i t ht
    obtain ⟨t', ht', hwf, -⟩ := (hs _ _ ht).pushTrusted (hp t ht)
    exact ⟨s.setTable p.1 t', by rw [ht', ok_bind, pure_eq], hs.setTable hwf p.1⟩
  · exact ⟨s, rfl, hs⟩

theorem pushRows_wf {rows : List (String × Row)} (hs : s.Wf) (hrows : ∀ p ∈ rows, s.Fits p) :
    ∃ s', rows.foldlM pushRow s = .ok s' ∧ s'.Wf := by
  induction rows generalizing s with
  | nil => exact ⟨s, rfl, hs⟩
  | cons p rows ih =>
    obtain ⟨s₁, hpush, hwf⟩ := pushRow_wf hs (hrows p mem_cons_self)
    obtain ⟨s₂, hrest, hwf₂⟩ := ih hwf fun q hq =>
      pushRow_fits hpush (hrows q (mem_cons_of_mem p hq))
    exact ⟨s₂, by rw [foldlM_cons, hpush, ok_bind, hrest], hwf₂⟩

/-- A record whose rows fit can be replayed. -/
theorem applyEntry_wf {e : Entry} (hs : s.Wf) (he : s.FitsEntry e) :
    ∃ s', applyEntry s e = .ok s' ∧ s'.Wf := by
  cases e with
  | createTable table columns primaryKey =>
    exact ⟨_, rfl, hs.setTable (Table.new_wf columns primaryKey) table⟩
  | insertRow table row => exact pushRow_wf hs he
  | transaction rows => exact pushRows_wf hs he
  | createDatabase name => exact ⟨_, rfl, hs⟩
  | dropDatabase name => exact ⟨_, rfl, hs⟩
  | alterTable table change =>
    simp only [applyEntry, applyAlter]
    cases ht : s.tables.lookup table with
    | none => exact ⟨s, rfl, hs⟩
    | some t =>
      have hpost := computeAlteredTable_wf (hs _ _ ht) change
      cases haltered : computeAlteredTable t change with
      | ok altered =>
        rw [haltered] at hpost
        exact ⟨_, by simp only [haltered], hs.setTable hpost table⟩
      | err x => exact ⟨s, by simp only [haltered], hs⟩
      | panic => exact absurd haltered hpost.ne_panic

variable {name : String} {c : Call}
variable {table : String} {row : Row} {t : Table} {seen seen' : Finset (String × Value)}
  {columns : List ColumnSchema} {primaryKey : Option String}

theorem checkRow_eq_ok (h : checkRow s table row = .ok t) :
    s.tables.lookup table = some t ∧ row.length = t.schema.columns.length ∧
      t.checkInsertable row = .ok () := by
  obtain ⟨t', ht', h⟩ := bind_eq_ok.mp h
  rw [okOr_eq_ok] at ht'
  split_ifs at h with hlen
  obtain ⟨⟨⟩, hins, h⟩ := bind_eq_ok.mp h
  cases h
  exact ⟨ht', not_not.mp hlen, hins⟩

theorem checkRow_fits (h : checkRow s table row = .ok t) : s.Fits (table, row) := by
  obtain ⟨ht, hlen, -⟩ := checkRow_eq_ok h
  intro u hu
  cases ht.symm.trans hu
  exact hlen

theorem checkBatchRow_eq_ok {p : String × Row} (h : checkBatchRow s seen p = .ok seen') :
    ∃ t, checkRow s p.1 p.2 = .ok t := by
  obtain ⟨t, ht, -⟩ := bind_eq_ok.mp h
  exact ⟨t, ht⟩

theorem checkBatch_eq_ok {rows : List (String × Row)}
    (h : rows.foldlM (checkBatchRow s) seen = .ok seen') :
    ∀ p ∈ rows, ∃ t, checkRow s p.1 p.2 = .ok t := by
  induction rows generalizing seen with
  | nil => simp
  | cons q rows ih =>
    rw [foldlM_cons] at h
    obtain ⟨seen₁, hq, h⟩ := bind_eq_ok.mp h
    intro p hp
    rcases mem_cons.mp hp with rfl | hp
    · exact checkBatchRow_eq_ok hq
    · exact ih h p hp

theorem fits_of_check (h : check s c = .ok true) : s.FitsEntry c.entry := by
  cases c with
  | insertRow table row =>
    obtain ⟨t, ht, -⟩ := bind_eq_ok.mp h
    exact checkRow_fits ht
  | insertRows rows =>
    simp only [check] at h
    split_ifs at h
    · cases h
    · obtain ⟨seen, hseen, -⟩ := bind_eq_ok.mp h
      intro p hp
      obtain ⟨t, ht⟩ := checkBatch_eq_ok hseen p hp
      exact checkRow_fits ht
  | createTable | alterTable | createDatabase | dropDatabase => trivial

/-- Nothing a call checked makes its own apply fail. -/
theorem apply_ne_err_of_check (h : check s c = .ok true) (e : Error) : apply s c ≠ .err e := by
  cases c with
  | createTable name columns primaryKey =>
    obtain ⟨⟨⟩, -, h⟩ := bind_eq_ok.mp h
    split_ifs at h with hmem
    simp [apply, hmem]
  | alterTable name change =>
    obtain ⟨t, ht, h⟩ := bind_eq_ok.mp h
    obtain ⟨altered, haltered, -⟩ := bind_eq_ok.mp h
    simp [apply, ht, haltered]
  | insertRow table row =>
    obtain ⟨t, ht, -⟩ := bind_eq_ok.mp h
    simp only [apply, okOr_eq_ok.mpr (checkRow_eq_ok ht).1, ok_bind]
    exact bind_ne_err (Table.pushTrusted_ne_err t row) (by simp) e
  | insertRows rows => exact foldlM_ne_err pushRow_ne_err rows s e
  | createDatabase name ifNotExists =>
    simp only [check] at h
    split_ifs at h with hmem
    · cases h
    · simp [apply, hmem]
  | dropDatabase name ifExists =>
    simp only [check] at h
    split_ifs at h with hmem
    have hor : name ∈ s.databases ∨ ifExists = true := by
      by_cases hin : name ∈ s.databases
      · exact .inl hin
      · cases ifExists
        · exact absurd ⟨hin, rfl⟩ hmem
        · exact .inr rfl
    simp [apply, hor]

theorem name_free_of_check (h : check s (.createTable name columns primaryKey) = .ok true) :
    name ∉ s.tables := by
  obtain ⟨⟨⟩, -, h⟩ := bind_eq_ok.mp h
  split_ifs at h with hmem
  exact hmem

theorem apply_createTable_eq_ok (hcheck : check s (.createTable name columns primaryKey) = .ok true)
    (h : apply s (.createTable name columns primaryKey) = .ok s') :
    s.tables.lookup name = none ∧
      (primaryKey.isSome → (TableSchema.mk columns primaryKey).keyIndex.isSome) ∧
      s' = s.setTable name (Table.new columns primaryKey) := by
  have hname := name_free_of_check hcheck
  obtain ⟨⟨⟩, hdefined, -⟩ := bind_eq_ok.mp hcheck
  simp only [apply, if_neg hname] at h
  refine ⟨Finmap.lookup_eq_none.mpr hname, fun hsome => ?_, (ok.inj h).symm⟩
  obtain ⟨pk, rfl⟩ := Option.isSome_iff_exists.mp hsome
  simp only [checkKeyDefined] at hdefined
  split_ifs at hdefined with hany
  simpa [TableSchema.keyIndex, findIdx?_isSome] using hany

theorem apply_alterTable_eq_ok {change : SchemaChange}
    (h : apply s (.alterTable name change) = .ok s') :
    ∃ t altered, s.tables.lookup name = some t ∧ computeAlteredTable t change = .ok altered ∧
      s' = s.setTable name altered := by
  obtain ⟨t, ht, h⟩ := bind_eq_ok.mp h
  obtain ⟨altered, haltered, h⟩ := bind_eq_ok.mp h
  exact ⟨t, altered, okOr_eq_ok.mp ht, haltered, (ok.inj h).symm⟩

theorem apply_createDatabase_tables {ifNotExists : Bool}
    (h : apply s (.createDatabase name ifNotExists) = .ok s') : s'.tables = s.tables := by
  simp only [apply] at h
  split_ifs at h <;> cases h <;> rfl

theorem apply_dropDatabase_tables {ifExists : Bool}
    (h : apply s (.dropDatabase name ifExists) = .ok s') : s'.tables = s.tables := by
  simp only [apply] at h
  split_ifs at h
  cases h
  rfl

/-- A checked call applies, and its record replays to the same store. -/
theorem apply_of_check (hs : s.Wf) (h : check s c = .ok true) :
    ∃ s', apply s c = .ok s' ∧ applyEntry s c.entry = .ok s' ∧ s'.Wf := by
  obtain ⟨s', hs', hwf⟩ := applyEntry_wf hs (fits_of_check h)
  have hsettle : applyEntry s c.entry = settle s (apply s c) := by
    refine applyEntry_entry s c ?_
    rintro name columns primaryKey rfl
    exact name_free_of_check h
  rw [settle_of_ne_err (apply_ne_err_of_check h)] at hsettle
  exact ⟨s', hsettle ▸ hs', hs', hwf⟩

theorem checkRow_post (hs : s.All Table.Placed) (table : String) (row : Row) :
    (checkRow s table row).Post fun t => t.Placed ∧ row.length = t.schema.columns.length := by
  apply (okOr_post (P := Table.Placed) _ fun t => hs table t).bind
  intro t ht
  by_cases hlen : row.length = t.schema.columns.length
  · rw [if_neg (not_not.mpr hlen)]
    refine .bind (P := fun _ => True) ?_ fun _ _ => ⟨ht, hlen⟩
    unfold Table.checkInsertable
    split
    · rename_i idx hidx
      exact (index_post (hlen ▸ ht.key_lt hidx)).bind fun _ _ => .ite trivial trivial
    · trivial
  · rw [if_pos hlen]
    trivial

theorem checkBatchRow_post (hs : s.All Table.Placed) (seen : Finset (String × Value)) (p : String × Row) :
    (checkBatchRow s seen p).Post fun _ => True := by
  refine (checkRow_post hs p.1 p.2).bind fun t ⟨ht, hlen⟩ => ?_
  refine .bind (P := fun _ => True) ?_ fun key _ => ?_
  · unfold Table.primaryKeyValue
    split
    · rename_i idx hidx
      exact (index_post (hlen ▸ ht.key_lt hidx)).map fun _ _ => trivial
    · trivial
  · cases key with
    | none => trivial
    | some key => exact .ite trivial trivial

theorem checkBatch_post (hs : s.All Table.Placed) (rows : List (String × Row)) :
    (check s (.insertRows rows)).Post fun _ => True := by
  refine .ite trivial (Post.bind (P := fun _ => True) ?_ fun _ _ => trivial)
  exact .foldlM (P := fun _ => True) (fun seen _ p _ => checkBatchRow_post hs seen p)
    trivial

theorem check_ne_panic (hs : s.Wf) (c : Call) : check s c ≠ .panic := by
  suffices h : (check s c).Post fun _ => True from h.ne_panic
  cases c with
  | createTable name columns primaryKey =>
    refine .bind (P := fun _ => True) ?_ fun _ _ => .ite trivial trivial
    unfold checkKeyDefined
    split
    · exact .ite trivial trivial
    · trivial
  | alterTable name change =>
    exact (okOr_post (P := Table.Wf) _ fun t => hs name t).bind fun t ht =>
      (computeAlteredTable_wf ht change).bind fun _ _ => trivial
  | insertRow table row => exact (checkRow_post hs.placed table row).bind fun _ _ => trivial
  | insertRows rows => exact checkBatch_post hs.placed rows
  | createDatabase name ifNotExists => exact .ite (.ite trivial trivial) trivial
  | dropDatabase name ifExists => exact .ite trivial trivial

variable {u : Store}
variable {v : Table}

theorem Store.Same.refl (s : Store) : s.Same s := by
  refine ⟨fun name => ?_, rfl⟩
  cases s.tables.lookup name with
  | none => exact .none
  | some t => exact .some (Table.Same.refl t)

theorem Store.Same.of_lookup (h : s.Same u) (hv : u.tables.lookup name = some v) :
    ∃ t, s.tables.lookup name = some t ∧ t.Same v := by
  have hrel := h.tables name
  rw [hv] at hrel
  generalize s.tables.lookup name = o at hrel ⊢
  cases hrel with
  | some htv => exact ⟨_, rfl, htv⟩

theorem Store.Same.lookup (h : s.Same u) (ht : s.tables.lookup name = some t) :
    ∃ v, u.tables.lookup name = some v ∧ t.Same v := by
  have hrel := h.tables name
  rw [ht] at hrel
  generalize u.tables.lookup name = o at hrel ⊢
  cases hrel with
  | some htv => exact ⟨_, rfl, htv⟩

theorem Store.All.same {P : Table → Prop} (h : s.All P) (hP : ∀ t v, t.Same v → P t → P v)
    (hsame : s.Same u) : u.All P := by
  intro name v hv
  obtain ⟨t, ht, htv⟩ := hsame.of_lookup hv
  exact hP t v htv (h name t ht)

theorem Store.Same.setTable (h : s.Same u) (htv : t.Same v) (name : String) :
    (s.setTable name t).Same (u.setTable name v) := by
  refine ⟨fun other => ?_, h.databases⟩
  by_cases heq : other = name
  · subst heq
    rw [lookup_setTable, lookup_setTable]
    exact .some htv
  · rw [lookup_setTable_of_ne s name t heq, lookup_setTable_of_ne u name v heq]
    exact h.tables other

theorem pushRow_same (h : s.Same u) (p : String × Row) :
    Rel Store.Same (pushRow s p) (pushRow u p) := by
  unfold pushRow
  have hp := h.tables p.1
  generalize s.tables.lookup p.1 = t, u.tables.lookup p.1 = v at hp
  cases hp with
  | none => exact .ok h
  | some htv => exact (htv.pushTrusted p.2).bind fun _ _ h' => .ok (h.setTable h' p.1)

theorem applyAlter_same (h : s.Same u) (table : String) (change : SchemaChange) :
    Rel Store.Same (applyAlter s table change) (applyAlter u table change) := by
  unfold applyAlter
  have hp := h.tables table
  generalize s.tables.lookup table = t, u.tables.lookup table = v at hp ⊢
  cases hp with
  | none => exact .ok h
  | @some t v htv =>
    simp only [computeAlteredTable_congr htv change]
    cases computeAlteredTable v change with
    | ok altered => exact .ok (h.setTable (Table.Same.refl altered) table)
    | err x => exact .ok h
    | panic => exact .panic

theorem applyEntry_same (h : s.Same u) (e : Entry) :
    Rel Store.Same (applyEntry s e) (applyEntry u e) := by
  cases e with
  | createTable table columns primaryKey => exact .ok (h.setTable (Table.Same.refl _) table)
  | insertRow table row => exact pushRow_same h (table, row)
  | transaction rows => exact Rel.foldlM (fun _ _ p h => pushRow_same h p) rows h
  | createDatabase name => exact .ok ⟨h.tables, congrArg (insert name) h.databases⟩
  | dropDatabase name => exact .ok ⟨h.tables, congrArg (Finset.erase · name) h.databases⟩
  | alterTable table change => exact applyAlter_same h table change

end

end MysqlRust
