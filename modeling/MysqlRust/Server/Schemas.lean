import MysqlRust.Server.TableInvariants

/-! # Schemas over whole runs

The counter column is the key and holds integers, and the key is `NOT NULL`. `CREATE TABLE`
accepts any list of names and a counter of any type, `ADD COLUMN` a second counter, and
`MODIFY COLUMN` a key without `NOT NULL`.
-/
namespace MysqlRust

open Outcome List

structure TableSchema.Wf (schema : TableSchema) : Prop where
  nonempty : schema.columns ≠ []
  distinct : (schema.columns.map ColumnSchema.name).Nodup
  counters : (schema.columns.filter ColumnSchema.autoIncrement).length ≤ 1
  counter : ∀ c ∈ schema.columns, c.autoIncrement = true →
    schema.primaryKey = some c.name ∧ c.columnType = .int
  key : ∀ pk ∈ schema.primaryKey, ∃ c ∈ schema.columns, c.name = pk ∧ c.nullable = false

instance (schema : TableSchema) : Decidable schema.Wf :=
  decidable_of_iff (schema.columns ≠ [] ∧ (schema.columns.map ColumnSchema.name).Nodup ∧
      (schema.columns.filter ColumnSchema.autoIncrement).length ≤ 1 ∧
      (∀ c ∈ schema.columns, c.autoIncrement = true →
        schema.primaryKey = some c.name ∧ c.columnType = .int) ∧
      ∀ pk ∈ schema.primaryKey, ∃ c ∈ schema.columns, c.name = pk ∧ c.nullable = false)
    ⟨fun ⟨h₁, h₂, h₃, h₄, h₅⟩ => ⟨h₁, h₂, h₃, h₄, h₅⟩,
      fun h => ⟨h.nonempty, h.distinct, h.counters, h.counter, h.key⟩⟩

def DefsSound (defs : List ColumnDef) : Prop :=
  defs ≠ [] ∧ (defs.map ColumnDef.name).Nodup ∧
    ∀ d ∈ defs, d.autoIncrement = true → ColumnType.fromName d.typeName = some .int
  deriving Decidable

/-- The rules `ALTER TABLE` leaves unchecked. -/
def SchemaChange.Sound (schema : TableSchema) : SchemaChange → Prop
  | .addColumn column isPrimaryKey =>
    column.autoIncrement = true → isPrimaryKey = true ∧ column.columnType = .int
  | .modifyColumn newCol =>
    (newCol.autoIncrement = true → newCol.columnType = .int) ∧
      (schema.primaryKey = some newCol.name → newCol.nullable = false)
  | .dropColumn _ | .addPrimaryKey _ | .dropPrimaryKey => True

def SchemasGuarded (s : Server) : Event → Prop
  | .execute _ (.createTable _ defs) _ _ => DefsSound defs
  | .execute _ (.alterTable table action) _ _ =>
    ∀ change ∈ (resolveAction action).toOption, ∀ t ∈ s.store.tables.lookup table,
      change.Sound t.schema
  | _ => True

instance (schema : TableSchema) (change : SchemaChange) : Decidable (change.Sound schema) := by
  unfold SchemaChange.Sound
  rcases change with ⟨⟩ <;> infer_instance

instance (s : Server) (e : Event) : Decidable (SchemasGuarded s e) := by
  unfold SchemasGuarded
  rcases e with ⟨_, ⟨⟩⟩ | _ <;> infer_instance

theorem TableSchema.Wf.of_counter {schema : TableSchema} (hnonempty : schema.columns ≠ [])
    (hdistinct : (schema.columns.map ColumnSchema.name).Nodup)
    (hcounter : ∀ c ∈ schema.columns, c.autoIncrement = true →
      schema.primaryKey = some c.name ∧ c.columnType = .int)
    (hkey : ∀ pk ∈ schema.primaryKey, ∃ c ∈ schema.columns, c.name = pk ∧ c.nullable = false) :
    schema.Wf := by
  refine ⟨hnonempty, hdistinct, ?_, hcounter, hkey⟩
  have hnames : ((schema.columns.filter ColumnSchema.autoIncrement).map ColumnSchema.name).Nodup :=
    hdistinct.sublist (filter_sublist.map _)
  match hfilter : schema.columns.filter ColumnSchema.autoIncrement with
  | [] => simp
  | [c] => simp
  | a :: b :: rest =>
    have hmem : ∀ c ∈ a :: b :: rest, schema.primaryKey = some c.name := by
      intro c hc
      rw [← hfilter, mem_filter] at hc
      exact (hcounter c hc.1 hc.2).1
    have heq : a.name = b.name :=
      Option.some.inj ((hmem a (by simp)).symm.trans (hmem b (by simp)))
    rw [hfilter] at hnames
    simp [heq] at hnames

section
variable {d : ColumnDef} {draft draft' : TableDraft} {defs : List ColumnDef}

structure TableDraft.Sound (draft : TableDraft) : Prop where
  counter : ∀ c ∈ draft.columns, c.autoIncrement = true → draft.autoIncrementColumn = some c.name
  key : ∀ pk ∈ draft.primaryKey, ∃ c ∈ draft.columns, c.name = pk ∧ c.nullable = false

structure ColumnOf (d : ColumnDef) (c : ColumnSchema) : Prop where
  name : c.name = d.name
  columnType : ColumnType.fromName d.typeName = some c.columnType
  autoIncrement : c.autoIncrement = d.autoIncrement

theorem columnDefToSchema_eq_ok {c : ColumnSchema} {isPrimaryKey : Bool}
    (h : columnDefToSchema d = .ok (c, isPrimaryKey)) :
    ColumnOf d c ∧ (isPrimaryKey = true → c.nullable = false) := by
  obtain ⟨columnType, htype, h⟩ := bind_eq_ok.mp h
  cases h
  exact ⟨⟨rfl, okOr_eq_ok.mp htype, rfl⟩, fun hkey => by simp [hkey]⟩

theorem TableDraft.Sound.add (hdraft : draft.Sound) (h : draft.add d = .ok draft') :
    draft'.Sound ∧ ∃ c, ColumnOf d c ∧ draft'.columns = draft.columns ++ [c] := by
  obtain ⟨⟨c, isPrimaryKey⟩, hcolumn, h⟩ := bind_eq_ok.mp h
  obtain ⟨hof, hnullable⟩ := columnDefToSchema_eq_ok hcolumn
  dsimp only at h
  split at h
  · cases h
  split at h
  · cases h
  rename_i hauto
  cases h
  refine ⟨⟨fun b hb hcounter => ?_, fun pk hpk => ?_⟩, c, hof, rfl⟩
  · rcases mem_append.mp hb with hb | hb
    · -- an earlier counter column rules out that this one is a counter
      have hprior := hdraft.counter b hb hcounter
      have hnot : ¬ c.autoIncrement = true := fun h => hauto ⟨h, by rw [hprior]; rfl⟩
      rw [if_neg hnot, hprior]
    · cases mem_singleton.mp hb
      rw [if_pos hcounter]
  · by_cases hprimary : isPrimaryKey = true
    · rw [if_pos hprimary] at hpk
      exact ⟨c, by simp, Option.some.inj hpk, hnullable hprimary⟩
    · rw [if_neg hprimary] at hpk
      obtain ⟨b, hb, hrest⟩ := hdraft.key pk hpk
      exact ⟨b, mem_append_left _ hb, hrest⟩

theorem TableDraft.Sound.addAll (hdraft : draft.Sound)
    (h : defs.foldlM TableDraft.add draft = .ok draft') :
    draft'.Sound ∧ ∃ columns, List.Forall₂ ColumnOf defs columns ∧
      draft'.columns = draft.columns ++ columns := by
  induction defs generalizing draft with
  | nil =>
    cases h
    exact ⟨hdraft, [], .nil, (append_nil _).symm⟩
  | cons d defs ih =>
    rw [foldlM_cons] at h
    obtain ⟨draft₁, hadd, h⟩ := bind_eq_ok.mp h
    obtain ⟨hdraft₁, c, hof, hcolumns₁⟩ := hdraft.add hadd
    obtain ⟨hdraft', columns, hcolumns, heq⟩ := ih hdraft₁ h
    exact ⟨hdraft', c :: columns, .cons hof hcolumns, by rw [heq, hcolumns₁]; simp⟩

theorem resolveColumns_wf {columns : List ColumnSchema} {primaryKey : Option String}
    (hdefs : DefsSound defs) (h : resolveColumns defs = .ok (columns, primaryKey)) :
    (TableSchema.mk columns primaryKey).Wf := by
  obtain ⟨draft, hfold, h⟩ := bind_eq_ok.mp h
  split_ifs at h with hauto
  cases h
  obtain ⟨hdraft, columns, hof, heq⟩ := TableDraft.Sound.addAll ⟨by simp, by simp⟩ hfold
  obtain ⟨hne, hnodup, hint⟩ := hdefs
  have heq : draft.columns = columns := heq
  have hnames : columns.map ColumnSchema.name = defs.map ColumnDef.name :=
    (Lists.forall₂_map_eq hof fun d c h => h.name.symm).symm
  refine .of_counter ?_ ?_ (fun c hc hcounter => ⟨?_, ?_⟩) hdraft.key
  · intro hnil
    have hcolumns : columns = [] := heq.symm.trans hnil
    rw [hcolumns] at hof
    exact hne (forall₂_nil_right_iff.mp hof)
  · rwa [heq, hnames]
  · have hcolumn := hdraft.counter c hc hcounter
    by_contra hkey
    exact hauto ⟨by rw [hcolumn]; rfl, by rw [hcolumn]; exact hkey⟩
  · obtain ⟨d, hd, hdc⟩ := Lists.forall₂_mem_right hof (heq ▸ hc)
    have htype := hint d hd (hdc.autoIncrement ▸ hcounter)
    exact Option.some.inj (hdc.columnType.symm.trans htype)

variable {t t' : Table}
variable {column : ColumnSchema} {isPrimaryKey : Bool} {name : String} {action : AlterAction}

theorem wf_addColumn (h : t.schema.Wf)
    (hsound : (SchemaChange.addColumn column isPrimaryKey).Sound t.schema)
    (hnullable : isPrimaryKey = true → column.nullable = false)
    (halter : addColumn t column isPrimaryKey = .ok t') : t'.schema.Wf := by
  obtain ⟨hnew, -, hnone, hfold⟩ := addColumn_eq_ok halter
  rw [(fill_eq_ok hfold).1]
  refine .of_counter (by simp) ?_ (fun c hc hcounter => ?_) fun pk hpk => ?_
  · simp only [map_append, map_cons, map_nil]
    refine h.distinct.append (nodup_singleton _) fun name hname hsingle => ?_
    obtain ⟨c, hc, rfl⟩ := mem_map.mp hname
    exact hnew c hc (mem_singleton.mp hsingle)
  · rcases mem_append.mp hc with hc | hc
    · obtain ⟨hkey, hint⟩ := h.counter c hc hcounter
      -- the table has a key, so the new column is not one
      have hnot : ¬ isPrimaryKey = true := fun hp => by simp [hnone hp] at hkey
      exact ⟨by simp [hnot, hkey], hint⟩
    · rw [mem_singleton.mp hc] at hcounter ⊢
      obtain ⟨hprimary, hint⟩ := hsound hcounter
      exact ⟨by simp [hprimary], hint⟩
  · by_cases hprimary : isPrimaryKey = true
    · simp only [hprimary, if_true, Option.mem_some_iff] at hpk
      exact ⟨column, by simp, hpk, hnullable hprimary⟩
    · simp only [hprimary] at hpk
      obtain ⟨c, hc, hrest⟩ := h.key pk hpk
      exact ⟨c, mem_append_left _ hc, hrest⟩

theorem wf_dropColumn (h : t.schema.Wf) (halter : dropColumn t name = .ok t') : t'.schema.Wf := by
  obtain ⟨idx, hidx, hone, hfold⟩ := dropColumn_eq_ok halter
  rw [(fill_eq_ok hfold).1]
  obtain ⟨hlt, hname, -⟩ := findIdx?_eq_some_iff_getElem.mp hidx
  have hname : t.schema.columns[idx].name = name := by simpa using hname
  have hother : ∀ c ∈ t.schema.columns, c.name ≠ name → c ∈ t.schema.columns.eraseIdx idx := by
    intro c hc hne
    obtain ⟨j, hj, rfl⟩ := mem_iff_getElem.mp hc
    refine mem_eraseIdx_iff_getElem.mpr ⟨j, hj, fun heq => hne ?_, rfl⟩
    subst heq
    exact hname
  have hsub : (t.schema.columns.eraseIdx idx).Sublist t.schema.columns := eraseIdx_sublist ..
  refine .of_counter ?_ (h.distinct.sublist (hsub.map _)) (fun c hc hcounter => ?_) fun pk hpk => ?_
  · have hlen : 0 < (t.schema.columns.eraseIdx idx).length := by
      rw [length_eraseIdx_of_lt hlt]
      omega
    exact ne_nil_of_length_pos hlen
  · obtain ⟨hkey, hint⟩ := h.counter c (hsub.subset hc) hcounter
    refine ⟨?_, hint⟩
    have hne : c.name ≠ name := by
      rintro rfl
      -- the only column of the name has been removed
      obtain ⟨j, hj, hji, heq⟩ := mem_eraseIdx_iff_getElem.mp hc
      refine hji ((@List.Nodup.getElem_inj_iff _ _ h.distinct j (by simpa using hj) idx
        (by simpa using hlt)).mp ?_)
      rw [getElem_map, getElem_map, heq, hname]
    simp [hkey, hne]
  · obtain ⟨hkey, hne⟩ := Option.mem_filter_iff.mp hpk
    obtain ⟨c, hc, hcname, hnull⟩ := h.key pk hkey
    exact ⟨c, hother c hc (by rw [hcname]; simpa using hne), hcname, hnull⟩

theorem wf_modifyColumn (h : t.schema.Wf) {newCol : ColumnSchema}
    (hsound : (SchemaChange.modifyColumn newCol).Sound t.schema)
    (halter : modifyColumn t newCol = .ok t') : t'.schema.Wf := by
  obtain ⟨idx, rows', hidx, hauto, -, hfold⟩ := modifyColumn_eq_ok halter
  rw [(fill_eq_ok hfold).1]
  obtain ⟨hlt, hname, -⟩ := findIdx?_eq_some_iff_getElem.mp hidx
  have hname : t.schema.columns[idx].name = newCol.name := by simpa using hname
  refine .of_counter ?_ ?_ (fun c hc hcounter => ?_) fun pk hpk => ?_
  · simpa using h.nonempty
  · rw [set_names hidx]
    exact h.distinct
  · rcases mem_or_eq_of_mem_set hc with hc | rfl
    · exact h.counter c hc hcounter
    · exact ⟨hauto hcounter, hsound.1 hcounter⟩
  · obtain ⟨c, hc, hcname, hnull⟩ := h.key pk hpk
    by_cases heq : pk = newCol.name
    · subst heq
      exact ⟨newCol, mem_set hlt newCol, rfl, hsound.2 hpk⟩
    · obtain ⟨j, hj, rfl⟩ := mem_iff_getElem.mp hc
      have hji : idx ≠ j := by
        rintro rfl
        exact heq (hcname.symm.trans hname)
      refine ⟨_, mem_iff_getElem.mpr ⟨j, by simpa using hj, ?_⟩, hcname, hnull⟩
      simp [getElem_set_ne hji]

theorem wf_addPrimaryKey (h : t.schema.Wf) (halter : addPrimaryKey t name = .ok t') :
    t'.schema.Wf := by
  obtain ⟨idx, hidx, hnone, -, -, hfold⟩ := addPrimaryKey_eq_ok halter
  rw [(fill_eq_ok hfold).1]
  obtain ⟨hlt, hname, -⟩ := findIdx?_eq_some_iff_getElem.mp hidx
  have hname : t.schema.columns[idx].name = name := by simpa using hname
  refine .of_counter ?_ ?_ (fun c hc hcounter => ?_) fun pk hpk => ?_
  · simpa using h.nonempty
  · have hnames : (t.schema.columns.modify idx fun c => { c with nullable := false }).map
        ColumnSchema.name = t.schema.columns.map ColumnSchema.name :=
      Lists.map_modify_of_eq (by simp) _ _
    exact hnames ▸ h.distinct
  · -- a table without a key has no counter
    exfalso
    obtain ⟨j, hj, rfl⟩ := mem_iff_getElem.mp hc
    have hj' : j < t.schema.columns.length := by simpa using hj
    have hflag : t.schema.columns[j].autoIncrement = true := by
      simp only [getElem_modify] at hcounter
      split at hcounter <;> exact hcounter
    have hkey := (h.counter _ (getElem_mem hj') hflag).1
    simp [hnone] at hkey
  · have hpk : name = pk := Option.some.inj hpk
    subst hpk
    refine ⟨_, getElem_mem (n := idx) (by simpa using hlt), ?_, ?_⟩
    · simpa [getElem_modify] using hname
    · simp

theorem wf_dropPrimaryKey (h : t.schema.Wf) (halter : dropPrimaryKey t = .ok t') :
    t'.schema.Wf := by
  rw [(fill_eq_ok (dropPrimaryKey_eq_ok halter)).1]
  refine .of_counter ?_ ?_ (fun c hc hcounter => ?_) fun pk hpk => ?_
  · simpa using h.nonempty
  · have hname : (ColumnSchema.name ∘ fun c : ColumnSchema =>
        if t.schema.primaryKey = some c.name then { c with autoIncrement := false } else c) =
          ColumnSchema.name := by
      funext c
      simp only [Function.comp_apply]
      split <;> rfl
    simp only [map_map, hname]
    exact h.distinct
  · -- the counter was the key, and its flag has been cleared
    exfalso
    obtain ⟨b, hb, rfl⟩ := mem_map.mp hc
    split_ifs at hcounter with hkey
    exact hkey (h.counter b hb hcounter).1
  · simp at hpk

theorem resolveAction_nullable (h : resolveAction action = .ok (.addColumn column isPrimaryKey)) :
    isPrimaryKey = true → column.nullable = false := by
  cases action with
  | addColumn d =>
    obtain ⟨⟨c, isKey⟩, hcolumn, h⟩ := bind_eq_ok.mp h
    cases h
    exact (columnDefToSchema_eq_ok hcolumn).2
  | modifyColumn d =>
    simp only [resolveAction] at h
    split_ifs at h
    obtain ⟨p, -, h⟩ := bind_eq_ok.mp h
    cases h
  | dropColumn | addPrimaryKey | dropPrimaryKey => cases h

theorem computeAlteredTable_schema_wf (h : t.schema.Wf) {change : SchemaChange}
    (hresolved : resolveAction action = .ok change) (hsound : change.Sound t.schema)
    (halter : computeAlteredTable t change = .ok t') : t'.schema.Wf := by
  cases change with
  | addColumn => exact wf_addColumn h hsound (resolveAction_nullable hresolved) halter
  | dropColumn => exact wf_dropColumn h halter
  | modifyColumn => exact wf_modifyColumn h hsound halter
  | addPrimaryKey => exact wf_addPrimaryKey h halter
  | dropPrimaryKey => exact wf_dropPrimaryKey h halter

end

theorem schemas_invariant :
    TableInvariant SchemasGuarded (fun t => t.schema.Wf) (fun _ _ => True) where
  same _ _ hsame h := hsame.schema ▸ h
  new _ _ _ _ _ _ _ _ hg hresolved _ := resolveColumns_wf hg hresolved
  alter := by
    intro s conn table action append visited change t t' hg hresolved ht _ hwf haltered
    have hsound := hg change (mem_toOption.mpr hresolved) t ht
    exact ⟨computeAlteredTable_schema_wf hwf hresolved hsound haltered, .inr fun _ _ => trivial⟩
  convert _ _ _ _ _ _ _ _ _ _ _ _ := trivial
  push _ _ _ _ h _ _ hfold := (pushAll_eq_ok hfold).1 ▸ h

/-- In every state that statements reach one after the other, every schema is well formed. -/
theorem schemas_wf_of_run {s : Server}
    (h : Runs.Reach Server.step SchemasGuarded (.start .empty) s) :
    s.store.All fun t => t.schema.Wf :=
  (schemas_invariant.run h).tables

def alterStatements : List Event :=
  [run (.createTable "t" [⟨"id", "INT", true, true, true⟩, ⟨"name", "TEXT", false, true, false⟩]) [],
    run (.insert ⟨"t", some ["name"], [[.string "a"]]⟩) [],
    run (.alterTable "t" (.addColumn ⟨"note", "TEXT", false, true, false⟩)) [],
    run (.alterTable "t" (.modifyColumn ⟨"id", "BIGINT", false, false, true⟩)) [],
    run (.alterTable "t" .dropPrimaryKey) [],
    run (.alterTable "t" (.addPrimaryKey "name")) [],
    run (.alterTable "t" (.dropColumn "id")) []]

theorem schemas_wf_alterStatements :
    ∃ s, alterStatements.foldlM Server.step (.start .empty) = some s ∧
      (s.store.tables.lookup "t").map Table.schema =
        some ⟨[⟨"name", .varchar, false, false⟩, ⟨"note", .varchar, true, false⟩], some "name"⟩ ∧
      s.store.All fun t => t.schema.Wf := by
  have hallowed : Runs.Allowed Server.step SchemasGuarded (.start .empty) alterStatements := by
    decide +kernel
  have hschema : (alterStatements.foldlM Server.step (.start .empty)).map (fun s =>
      (s.store.tables.lookup "t").map Table.schema) =
        some (some ⟨[⟨"name", .varchar, false, false⟩, ⟨"note", .varchar, true, false⟩],
          some "name"⟩) := by decide +kernel
  obtain ⟨s, hs, hschema⟩ := Option.map_eq_some_iff.mp hschema
  exact ⟨s, hs, hschema, schemas_wf_of_run (hallowed.reach hs)⟩

def twoCountersStatements : List Event :=
  [run (.createTable "t" [⟨"id", "INT", true, true, true⟩]) [],
    run (.alterTable "t" (.addColumn ⟨"n", "INT", false, true, true⟩)) []]

def sameNameStatements : List Event :=
  [run (.createTable "t" [⟨"a", "INT", false, true, false⟩, ⟨"a", "INT", false, true, false⟩]) []]

def Server.schemaWf (s : Server) : Option Bool :=
  (s.store.tables.lookup "t").map fun t => decide t.schema.Wf

theorem Server.not_schemas_wf {s : Server} (h : s.schemaWf = some false) :
    ¬ s.store.All fun t => t.schema.Wf := by
  intro hall
  obtain ⟨t, ht, hwf⟩ := Option.map_eq_some_iff.mp h
  exact of_decide_eq_false hwf (hall "t" t ht)

/-- The statements are accepted and leave a schema that is not well formed. -/
theorem malformed_schemas_accepted :
    (∃ s, twoCountersStatements.foldlM Server.step (.start .empty) = some s ∧
      ¬ s.store.All fun t => t.schema.Wf) ∧
    ∃ s, sameNameStatements.foldlM Server.step (.start .empty) = some s ∧
      ¬ s.store.All fun t => t.schema.Wf := by
  constructor
  · have hschema : (twoCountersStatements.foldlM Server.step (.start .empty)).map
        Server.schemaWf = some (some false) := by decide +kernel
    obtain ⟨s, hs, hschema⟩ := Option.map_eq_some_iff.mp hschema
    exact ⟨s, hs, s.not_schemas_wf hschema⟩
  · have hschema : (sameNameStatements.foldlM Server.step (.start .empty)).map
        Server.schemaWf = some (some false) := by decide +kernel
    obtain ⟨s, hs, hschema⟩ := Option.map_eq_some_iff.mp hschema
    exact ⟨s, hs, s.not_schemas_wf hschema⟩

end MysqlRust
