import MysqlRust.Foundation.Lists
import MysqlRust.Storage.CreateRace

/-! # Typed cells

A row is typed under a schema when each cell has the type of its column, or is `NULL` in a
nullable one. Altered tables are typed again: new columns hold `NULL`, and a redefined column
converts its cells.
-/
namespace MysqlRust

open Outcome List

section
variable {n start len : Nat} {bytes : List UInt8} {s : String}

def paddedDigits : Nat → Nat → List UInt8
  | 0, _ => []
  | k + 1, n => paddedDigits k (n / 10) ++ [UInt8.ofNat (48 + n % 10)]

def dateText (year month day : Nat) : List UInt8 :=
  paddedDigits 4 year ++ 45 :: (paddedDigits 2 month ++ 45 :: paddedDigits 2 day)

def IsDate (s : String) : Prop :=
  ∃ year month day, year < 10 ^ 4 ∧ (1 ≤ month ∧ month ≤ 12) ∧ (1 ≤ day ∧ day ≤ 31) ∧
    utf8 s = dateText year month day

def digitsNumber (ds : List UInt8) : Nat := ds.foldl (fun n b => 10 * n + (b.toNat - 48)) 0

@[simp] theorem digitsNumber_concat (ds : List UInt8) (b : UInt8) :
    digitsNumber (ds ++ [b]) = 10 * digitsNumber ds + (b.toNat - 48) := by
  simp [digitsNumber]

theorem paddedDigits_digitsNumber {ds : List UInt8} (h : ∀ b ∈ ds, isAsciiDigit b = true) :
    digitsNumber ds < 10 ^ ds.length ∧ paddedDigits ds.length (digitsNumber ds) = ds := by
  induction ds using List.reverseRecOn with
  | nil => exact ⟨by decide, rfl⟩
  | append_singleton ds b ih =>
    obtain ⟨hlt, hdigits⟩ := ih fun b hb => h b (mem_append_left _ hb)
    have hb : 48 ≤ b.toNat ∧ b.toNat ≤ 57 := by
      simpa [isAsciiDigit, UInt8.le_iff_toNat_le] using h b (by simp)
    have hdiv : (10 * digitsNumber ds + (b.toNat - 48)) / 10 = digitsNumber ds := by omega
    have hmod : 48 + (10 * digitsNumber ds + (b.toNat - 48)) % 10 = b.toNat := by omega
    rw [digitsNumber_concat, length_append, length_singleton]
    refine ⟨by rw [Nat.pow_succ]; omega, ?_⟩
    rw [paddedDigits, hdiv, hmod, hdigits, UInt8.ofNat_toNat]

theorem toNat_digit (n : Nat) : (UInt8.ofNat (48 + n % 10)).toNat = 48 + n % 10 :=
  UInt8.toNat_ofNat_of_lt' (by change 48 + n % 10 < 256; omega)

@[simp] theorem length_paddedDigits (k n : Nat) : (paddedDigits k n).length = k := by
  induction k generalizing n with
  | zero => rfl
  | succ k ih => rw [paddedDigits, length_append, ih, length_singleton]

theorem isAsciiDigit_of_mem_paddedDigits {k : Nat} {b : UInt8} (h : b ∈ paddedDigits k n) :
    isAsciiDigit b = true := by
  induction k generalizing n with
  | zero => cases h
  | succ k ih =>
    rcases mem_append.mp h with h | h
    · exact ih h
    · rw [mem_singleton.mp h]
      simp only [isAsciiDigit, Bool.and_eq_true, decide_eq_true_eq, UInt8.le_iff_toNat_le,
        toNat_digit]
      exact ⟨Nat.le_add_right 48 _, by change 48 + n % 10 ≤ 57; omega⟩

theorem digitsNumber_paddedDigits (k n : Nat) : digitsNumber (paddedDigits k n) = n % 10 ^ k := by
  induction k generalizing n with
  | zero => exact (Nat.mod_one n).symm
  | succ k ih =>
    have hmod : n % 10 ^ (k + 1) = n % 10 + 10 * (n / 10 % 10 ^ k) := by
      rw [Nat.pow_succ, Nat.mul_comm, Nat.mod_mul]
    rw [paddedDigits, digitsNumber_concat, ih, toNat_digit, hmod]
    omega

theorem digitsAt_eq_ok {invalid : Error} (h : digitsAt bytes start len invalid = .ok n)
    (hlen : start + len ≤ bytes.length) :
    n < 10 ^ len ∧ paddedDigits len n = (bytes.drop start).take len := by
  unfold digitsAt at h
  dsimp only at h
  split_ifs at h with hdigits
  rw [Bool.and_eq_true, all_eq_true] at hdigits
  obtain ⟨hlt, hpadded⟩ := paddedDigits_digitsNumber hdigits.2
  have hlength : ((bytes.drop start).take len).length = len := by
    rw [length_take, length_drop]
    omega
  rw [hlength] at hlt hpadded
  cases h
  exact ⟨hlt, hpadded⟩

theorem parseDateLiteral_eq_ok {columnName date : String}
    (h : parseDateLiteral s columnName = .ok date) : date = s ∧ IsDate s := by
  unfold parseDateLiteral at h
  dsimp only at h
  split_ifs at h with hshape
  rw [not_or, not_or, not_not, not_not, not_not] at hshape
  obtain ⟨hlen, hfirst, hsecond⟩ := hshape
  obtain ⟨year, hyear, h⟩ := bind_eq_ok.mp h
  obtain ⟨month, hmonth, h⟩ := bind_eq_ok.mp h
  obtain ⟨day, hday, h⟩ := bind_eq_ok.mp h
  split_ifs at h with hrange
  cases h
  rw [not_or, not_not, not_not] at hrange
  obtain ⟨hlt, hyear⟩ := digitsAt_eq_ok hyear (by omega)
  obtain ⟨-, hmonth⟩ := digitsAt_eq_ok hmonth (by omega)
  obtain ⟨-, hday⟩ := digitsAt_eq_ok hday (by omega)
  refine ⟨rfl, year, month, day, hlt, hrange.1, hrange.2, ?_⟩
  rw [dateText, hyear, hmonth, hday]
  match hbytes : utf8 s, hlen, hfirst, hsecond with
  | [_, _, _, _, _, _, _, _, _, _], _, hfirst, hsecond =>
    cases hfirst
    cases hsecond
    rfl

theorem digitsAt_paddedDigits (invalid : Error)
    (hpart : (bytes.drop start).take (len + 1) = paddedDigits (len + 1) n)
    (hlt : n < 10 ^ (len + 1)) : digitsAt bytes start (len + 1) invalid = .ok n := by
  have hall : (paddedDigits (len + 1) n).all isAsciiDigit = true :=
    all_eq_true.mpr fun b hb => isAsciiDigit_of_mem_paddedDigits hb
  have hnumber := digitsNumber_paddedDigits (len + 1) n
  rw [Nat.mod_eq_of_lt hlt, digitsNumber] at hnumber
  rw [digitsAt, hpart, hall, hnumber]
  simp [paddedDigits]

theorem IsDate.parseDateLiteral (h : IsDate s) (columnName : String) :
    MysqlRust.parseDateLiteral s columnName = .ok s := by
  obtain ⟨year, month, day, hyear, hmonth, hday, hbytes⟩ := h
  have hlength : (utf8 s).length = 10 := by simp [hbytes, dateText]
  have hfirst : (utf8 s)[4]? = some 45 := by simp [hbytes, dateText, paddedDigits]
  have hsecond : (utf8 s)[7]? = some 45 := by simp [hbytes, dateText, paddedDigits]
  have hy : ∀ e, digitsAt (utf8 s) 0 4 e = .ok year := fun e =>
    digitsAt_paddedDigits e (by simp [hbytes, dateText]) hyear
  have hm : ∀ e, digitsAt (utf8 s) 5 2 e = .ok month := fun e =>
    digitsAt_paddedDigits e (by simp [hbytes, dateText, paddedDigits]) (by omega)
  have hd : ∀ e, digitsAt (utf8 s) 8 2 e = .ok day := fun e =>
    digitsAt_paddedDigits e (by simp [hbytes, dateText, paddedDigits]) (by omega)
  have hshape : ¬((utf8 s).length ≠ 10 ∨ (utf8 s)[4]? ≠ some 45 ∨ (utf8 s)[7]? ≠ some 45) := by
    rw [hlength, hfirst, hsecond]
    decide
  unfold MysqlRust.parseDateLiteral
  dsimp only
  rw [if_neg hshape, hy, ok_bind, hm, ok_bind, hd, ok_bind, if_neg (by omega)]
  rfl

def Value.HasType : Value → ColumnType → Prop
  | .int _, .int => True
  | .varchar _, .varchar => True
  | .decimal _ scale, .decimal columnScale => scale = columnScale
  | .date s, .date => IsDate s
  | _, _ => False

def CellTyped (value : Value) (column : ColumnSchema) : Prop :=
  value = .null ∧ column.nullable = true ∨ value.HasType column.columnType

def RowTyped (schema : TableSchema) (row : Row) : Prop :=
  Forall₂ CellTyped row schema.columns

def Table.Typed (t : Table) : Prop := ∀ row ∈ t.rows, RowTyped t.schema row

theorem CellTyped.hasType {value : Value} {column : ColumnSchema} (h : CellTyped value column)
    (hnull : value ≠ .null) : value.HasType column.columnType :=
  h.resolve_left fun h => hnull h.1

theorem retypeValue_hasType {value value' : Value} {oldType newType : ColumnType} {name : String}
    (hvalue : value = .null ∨ value.HasType oldType)
    (h : retypeValue value newType name = .ok value') :
    value' = .null ∨ value'.HasType newType := by
  unfold retypeValue at h
  split at h
  case h_1 => exact .inl (Outcome.ok.inj h).symm
  case h_8 =>
    obtain ⟨p, -, h⟩ := bind_eq_ok.mp h
    obtain ⟨n, -, rfl⟩ := map_eq_ok.mp h
    exact .inr rfl
  case h_9 =>
    obtain ⟨date, hdate, rfl⟩ := map_eq_ok.mp h
    obtain ⟨rfl, hdate⟩ := parseDateLiteral_eq_ok hdate
    exact .inr hdate
  case h_14 =>
    cases h
    -- a date cell of a typed table holds a date already
    cases oldType with
    | date => exact .inr (hvalue.resolve_left nofun)
    | int | varchar | decimal => exact absurd hvalue (by simp [Value.HasType])
  all_goals first
    | cases h <;> exact .inr trivial
    | obtain ⟨n, -, rfl⟩ := map_eq_ok.mp h
      first | exact .inr trivial | exact .inr rfl

variable {t t' : Table}
variable {rows : List Row} {columns : List ColumnSchema} {name : String} {newCol : ColumnSchema}
  {row : Row}

theorem Table.Typed.same {u : Table} (h : t.Same u) (ht : t.Typed) : u.Typed := by
  intro row hrow
  rw [← h.rows] at hrow
  exact h.schema ▸ ht row hrow

theorem new_typed (columns : List ColumnSchema) (primaryKey : Option String) :
    (Table.new columns primaryKey).Typed := by
  intro row hrow
  simp [Table.new] at hrow

theorem Table.Typed.pushAll (ht : t.Typed) (hrows : ∀ row ∈ rows, RowTyped t.schema row)
    (h : rows.foldlM Table.pushTrusted t = .ok t') : t'.Typed := by
  obtain ⟨hschema, hall⟩ := pushAll_eq_ok h
  rw [Table.Typed, hschema, hall]
  exact forall_mem_append.mpr ⟨ht, hrows⟩

theorem typed_of_fill {primaryKey : Option String}
    (hrows : ∀ row ∈ rows, Forall₂ CellTyped row columns)
    (h : rows.foldlM Table.pushTrusted (Table.new columns primaryKey) = .ok t') : t'.Typed :=
  (new_typed columns primaryKey).pushAll hrows h

theorem typed_addColumn (ht : t.Typed) {column : ColumnSchema} {isPrimaryKey : Bool}
    (h : addColumn t column isPrimaryKey = .ok t') : t'.Typed := by
  obtain ⟨-, hempty, -, hfold⟩ := addColumn_eq_ok h
  refine typed_of_fill (fun row' hrow' => ?_) hfold
  obtain ⟨row, hrow, rfl⟩ := mem_map.mp hrow'
  have hnullable := (hempty.resolve_left (ne_nil_of_mem hrow)).1
  exact rel_append (ht row hrow) (.cons (.inl ⟨rfl, hnullable⟩) .nil)

theorem typed_dropColumn (ht : t.Typed) (h : dropColumn t name = .ok t') : t'.Typed := by
  obtain ⟨idx, -, -, hfold⟩ := dropColumn_eq_ok h
  refine typed_of_fill (fun row' hrow' => ?_) hfold
  obtain ⟨row, hrow, rfl⟩ := mem_map.mp hrow'
  exact Lists.forall₂_eraseIdx (ht row hrow) idx

theorem modifyRow_typed {idx : Nat} {row' : Row} (hrow : Forall₂ CellTyped row columns)
    (h : modifyRow newCol idx row = .ok row') :
    Forall₂ CellTyped row' (columns.set idx newCol) := by
  obtain ⟨value, value', hvalue, hretyped, hnull, rfl⟩ := modifyRow_eq_ok h
  rw [set_eq_modify, set_eq_modify]
  refine Lists.forall₂_modify hrow fun a b ha hb hab => ?_
  cases hvalue.symm.trans ha
  rcases retypeValue_hasType (hab.imp_left And.left) hretyped with rfl | htype
  · exact .inl ⟨rfl, hnull rfl⟩
  · exact .inr htype

theorem typed_modifyColumn (ht : t.Typed) (h : modifyColumn t newCol = .ok t') : t'.Typed := by
  obtain ⟨idx, rows', -, -, hrows', hfold⟩ := modifyColumn_eq_ok h
  refine typed_of_fill (fun row' hrow' => ?_) hfold
  obtain ⟨row, hrow, hmodify⟩ := Lists.forall₂_mem_right hrows' hrow'
  exact modifyRow_typed (ht row hrow) hmodify

theorem typed_addPrimaryKey (ht : t.Typed) (h : addPrimaryKey t name = .ok t') : t'.Typed := by
  obtain ⟨idx, -, -, hkeys, -, hfold⟩ := addPrimaryKey_eq_ok h
  refine typed_of_fill (fun row hrow => ?_) hfold
  obtain ⟨key, hkey, hnull⟩ := hkeys row hrow
  rw [← modify_id idx row]
  refine Lists.forall₂_modify (ht row hrow) fun a b ha _ hab => .inr ?_
  cases hkey.symm.trans ha
  exact hab.hasType hnull

theorem rowTyped_dropPrimaryKey {schema : TableSchema} (h : RowTyped schema row) :
    Forall₂ CellTyped row (schema.columns.map fun c =>
      if schema.primaryKey = some c.name then { c with autoIncrement := false } else c) := by
  rw [forall₂_map_right_iff]
  refine h.imp fun value column hcell => ?_
  split
  · exact hcell
  · exact hcell

theorem computeAlteredTable_typed (ht : t.Typed) {change : SchemaChange}
    (h : computeAlteredTable t change = .ok t') : t'.Typed := by
  cases change with
  | addColumn column isPrimaryKey => exact typed_addColumn ht h
  | dropColumn name => exact typed_dropColumn ht h
  | modifyColumn newCol => exact typed_modifyColumn ht h
  | addPrimaryKey name => exact typed_addPrimaryKey ht h
  | dropPrimaryKey =>
    exact typed_of_fill (fun row hrow => rowTyped_dropPrimaryKey (ht row hrow))
      (dropPrimaryKey_eq_ok h)

end

end MysqlRust
