import MysqlRust.Foundation.Sorting
import MysqlRust.Query.ValueOrder

/-! # Sorting and paging

With a limit, rows are first partitioned around the last one that is needed, and only the
front part is sorted. The page has the sort keys of the page of all rows sorted.
-/
namespace MysqlRust
open Sorting List Outcome

/-- The contract of `select_nth_unstable_by`, for a comparison that is total on the rows. -/
def Unspecified.Partitions (lib : Unspecified) : Prop :=
  ∀ cmp (S : Set Row), PreorderOn cmp S → ∀ n rows, (∀ row ∈ rows, row ∈ S) → n < rows.length →
    Partitioned cmp n (lib.selectNth cmp n rows)

def SortTyped (sortKeys : List (Nat × Bool)) (rows : List Row) : Prop :=
  ∀ key ∈ sortKeys, ∃ columnType : ColumnType, ∀ row ∈ rows, ∃ v ∈ columnType.values,
    row[key.1]? = some v

def sortTuple (sortKeys : List (Nat × Bool)) (row : Row) : List (Option Value) :=
  sortKeys.map fun key => row[key.1]?

def page (limit offset : Option UInt64) (rows : List Row) : List Row :=
  let rest := rows.drop (offset.getD 0).toNat
  match limit with
  | none => rest
  | some n => rest.take n.toNat

section
variable {sortKeys : List (Nat × Bool)} {rows : List Row}

def cellOrdering (key : Nat × Bool) (a b : Row) : Ordering :=
  let ordering := valueOrdering (a.getD key.1 .null) (b.getD key.1 .null)
  if key.2 then ordering.swap else ordering

theorem rowOrdering_cons (key : Nat × Bool) (keys : List (Nat × Bool)) :
    rowOrdering (key :: keys) = fun a b => (cellOrdering key a b).then (rowOrdering keys a b) := by
  funext a b
  obtain ⟨idx, descending⟩ := key
  change (if cellOrdering (idx, descending) a b ≠ .eq then cellOrdering (idx, descending) a b
    else rowOrdering keys a b) = _
  cases cellOrdering (idx, descending) a b <;> rfl

theorem cellOrdering_column {key : Nat × Bool} {columnType : ColumnType}
    (h : ∀ row ∈ rows, ∃ v ∈ columnType.values, row[key.1]? = some v) :
    PreorderOn (cellOrdering key) {row | row ∈ rows} ∧
      KeyedOn (cellOrdering key) (fun row : Row => row[key.1]?) {row | row ∈ rows} := by
  have hcell : ∀ row ∈ rows, row.getD key.1 .null ∈ columnType.values ∧
      row[key.1]? = some (row.getD key.1 .null) := by
    intro row hrow
    obtain ⟨v, hv, hget⟩ := h row hrow
    rw [getD_eq_getElem?_getD, hget]
    exact ⟨hv, rfl⟩
  have htotal := valueOrdering_total columnType
  have hpre : PreorderOn (fun a b : Row => valueOrdering (a.getD key.1 .null) (b.getD key.1 .null))
      {row | row ∈ rows} := (PreorderOn.of_total htotal).comap fun row hrow => (hcell row hrow).1
  have hkeyed : KeyedOn (fun a b : Row => valueOrdering (a.getD key.1 .null) (b.getD key.1 .null))
      (fun row : Row => row[key.1]?) {row | row ∈ rows} := by
    intro a ha b hb
    dsimp only
    rw [(hcell a ha).2, (hcell b hb).2, Option.some.injEq]
    exact htotal.eq_iff _ (hcell a ha).1 _ (hcell b hb).1
  obtain ⟨idx, descending⟩ := key
  cases descending with
  | false => exact ⟨hpre, hkeyed⟩
  | true =>
    refine ⟨hpre.reverse, fun a ha b hb => ?_⟩
    rw [← hkeyed a ha b hb]
    exact Ordering.swap_eq_eq

theorem rowOrdering_rows (h : SortTyped sortKeys rows) :
    PreorderOn (rowOrdering sortKeys) {row | row ∈ rows} ∧
      KeyedOn (rowOrdering sortKeys) (sortTuple sortKeys) {row | row ∈ rows} := by
  induction sortKeys with
  | nil =>
    constructor
    · exact ⟨fun _ _ _ _ => rfl, fun _ _ _ _ _ _ _ _ => rfl⟩
    · exact fun _ _ _ _ => iff_of_true rfl rfl
  | cons key keys ih =>
    obtain ⟨columnType, hcolumn⟩ := h key mem_cons_self
    obtain ⟨hcells, hkeyed⟩ := cellOrdering_column hcolumn
    obtain ⟨hrest, hkeyed'⟩ := ih fun k hk => h k (mem_cons_of_mem key hk)
    rw [rowOrdering_cons]
    refine ⟨hcells.then hrest, fun a ha b hb => ?_⟩
    rw [Ordering.then_eq_eq, hkeyed a ha b hb, hkeyed' a ha b hb]
    simp [sortTuple]

variable {lib : Unspecified}
variable {limit offset : Option UInt64}

theorem checkSortable_ok (h : SortTyped sortKeys rows) : checkSortable sortKeys rows = .ok () := by
  rw [checkSortable, if_neg]
  rintro ⟨-, row, hrow, key, hkey, hle⟩
  obtain ⟨columnType, hcolumn⟩ := h key hkey
  obtain ⟨v, -, hget⟩ := hcolumn row hrow
  rw [List.getElem?_eq_none hle] at hget
  cases hget

/-- Partitioning and sorting the front gives the first sort keys of all rows sorted. -/
theorem sortRows_map (hlib : lib.Partitions) (h : SortTyped sortKeys rows)
    (limit offset : Option UInt64) (hkeep : 0 < keepCount limit offset)
    (hlt : keepCount limit offset < rows.length) :
    (sortRows lib sortKeys limit offset rows).map (sortTuple sortKeys) =
      ((rows.mergeSort fun a b => (rowOrdering sortKeys a b).isLE).map (sortTuple sortKeys)).take
        (keepCount limit offset) := by
  obtain ⟨hpre, hkeyed⟩ := rowOrdering_rows h
  generalize hk : keepCount limit offset = keep at hkeep hlt
  obtain ⟨n, rfl⟩ : ∃ n, keep = n + 1 := ⟨keep - 1, by omega⟩
  have hperm := lib.selectNth_perm (rowOrdering sortKeys) n rows
  have hlength : n < (lib.selectNth (rowOrdering sortKeys) n rows).length := by
    rw [hperm.length_eq]
    omega
  have hmem : ∀ row ∈ lib.selectNth (rowOrdering sortKeys) n rows, row ∈ rows := fun row hrow =>
    hperm.mem_iff.mp hrow
  have hpart := hlib _ _ hpre n rows (fun _ hrow => hrow) (by omega)
  have hfront := hpre.map_key_front hkeyed (fun _ hrow => hrow)
    (by rw [take_append_drop]; exact hperm) (hpart.front_le hpre hmem hlength)
  rw [length_take_of_le (by omega)] at hfront
  rw [sortRows, hk, if_pos ⟨hkeep, hlt⟩, Nat.add_sub_cancel]
  exact hfront

theorem sortRows_subperm (lib : Unspecified) (sortKeys : List (Nat × Bool))
    (limit offset : Option UInt64) (rows : List Row) :
    (sortRows lib sortKeys limit offset rows).Subperm rows := by
  unfold sortRows
  dsimp only
  rw [(mergeSort_perm _ _).subperm_right]
  split_ifs
  · rw [← (lib.selectNth_perm _ _ rows).subperm_left]
    exact (take_sublist _ _).subperm
  · exact List.Subperm.refl rows

theorem page_eq {l : List Row} (hlength : l.length < UInt64.size) :
    page limit offset l = (l.drop (offset.getD 0).toNat).take
      (limit.getD (UInt64.ofNat (UInt64.size - 1))).toNat := by
  cases limit with
  | some n => rfl
  | none =>
    refine (take_of_length_le ?_).symm
    change (l.drop (offset.getD 0).toNat).length ≤ UInt64.size - 1
    rw [length_drop]
    omega

theorem map_page_of_kept {κ : Type} {kept sorted : List Row} {key : Row → κ} {o n : Nat}
    (h : kept.map key = sorted.map key ∨ kept.map key = (sorted.map key).take (o + n)) :
    ((kept.drop o).take n).map key = ((sorted.drop o).take n).map key := by
  rw [map_take, map_drop, map_take, map_drop]
  rcases h with h | h
  · rw [h]
  · rw [h, drop_take, Nat.add_sub_cancel_left, take_take, Nat.min_self]

theorem keepCount_eq (hlt : keepCount limit offset < UInt64.size - 1) : keepCount limit offset =
      (offset.getD 0).toNat + (limit.getD (UInt64.ofNat (UInt64.size - 1))).toNat := by
  unfold keepCount at hlt ⊢
  omega

theorem kept_map (hlib : lib.Partitions) (h : SortTyped sortKeys rows)
    (hlength : rows.length < UInt64.size) (limit offset : Option UInt64) :
    let sorted := rows.mergeSort fun a b => (rowOrdering sortKeys a b).isLE
    let kept := if sortKeys = [] then rows else sortRows lib sortKeys limit offset rows
    kept.map (sortTuple sortKeys) = sorted.map (sortTuple sortKeys) ∨
      kept.map (sortTuple sortKeys) = (sorted.map (sortTuple sortKeys)).take
        ((offset.getD 0).toNat + (limit.getD (UInt64.ofNat (UInt64.size - 1))).toNat) := by
  dsimp only
  split_ifs with hnil
  · have hpair : rows.Pairwise fun a b => (rowOrdering sortKeys a b).isLE := by
      rw [hnil]
      exact pairwise_of_forall fun _ _ => rfl
    rw [mergeSort_of_pairwise hpair]
    exact .inl rfl
  · by_cases hkeep : 0 < keepCount limit offset ∧ keepCount limit offset < rows.length
    · have hlt : keepCount limit offset < UInt64.size - 1 := by omega
      right
      rw [sortRows_map hlib h limit offset hkeep.1 hkeep.2, keepCount_eq hlt]
    · left
      rw [sortRows, if_neg hkeep]

/-- A page of typed rows consists of rows given, with the sort keys, in order, that the page of
all rows stably sorted has. -/
theorem sortAndPaginate_sorted (hlib : lib.Partitions) (h : SortTyped sortKeys rows)
    (hlength : rows.length < UInt64.size) (limit offset : Option UInt64) :
    ∃ paged, sortAndPaginate lib rows sortKeys limit offset = .ok paged ∧ paged.Subperm rows ∧
      paged.map (sortTuple sortKeys) =
        (page limit offset (rows.mergeSort fun a b => (rowOrdering sortKeys a b).isLE)).map
          (sortTuple sortKeys) := by
  have hmap := kept_map hlib h hlength limit offset
  have hkept : (if sortKeys = [] then rows else sortRows lib sortKeys limit offset rows).Subperm
      rows := by
    split_ifs
    · exact List.Subperm.refl rows
    · exact sortRows_subperm lib sortKeys limit offset rows
  have hsorted : (rows.mergeSort fun a b => (rowOrdering sortKeys a b).isLE).length <
      UInt64.size := by
    rw [length_mergeSort]
    exact hlength
  rw [sortAndPaginate, checkSortable_ok h, ok_bind, page_eq hsorted]
  refine ⟨_, rfl, ?_, map_page_of_kept hmap⟩
  exact ((take_sublist _ _).trans (drop_sublist _ _)).subperm.trans hkept

theorem sortAndPaginate_all {paged : List Row} (hlength : rows.length < UInt64.size)
    (h : sortAndPaginate lib rows sortKeys none none = .ok paged) :
    paged.Perm rows ∧ (sortKeys = [] → paged = rows) := by
  obtain ⟨-, -, h⟩ := bind_eq_ok.mp h
  have hsort : sortRows lib sortKeys none none rows =
      rows.mergeSort fun a b => (rowOrdering sortKeys a b).isLE := by
    have hkeep : keepCount none none = UInt64.size - 1 := rfl
    rw [sortRows, hkeep, if_neg (by omega)]
  have htake : ∀ sorted : List Row, sorted.Perm rows →
      (sorted.drop 0).take (UInt64.size - 1) = sorted := fun sorted hperm =>
    take_of_length_le (by rw [drop_zero, hperm.length_eq]; omega)
  rw [hsort] at h
  split_ifs at h with hnil
  · have hpaged : rows = paged := by
      cases h
      exact (htake rows .rfl).symm
    exact ⟨hpaged ▸ .rfl, fun _ => hpaged.symm⟩
  · have hpaged : (rows.mergeSort fun a b => (rowOrdering sortKeys a b).isLE) = paged := by
      cases h
      exact (htake _ (mergeSort_perm _ _)).symm
    exact ⟨hpaged ▸ mergeSort_perm _ _, fun h => absurd h hnil⟩

theorem sortAndPaginate_pairwise {paged : List Row} (htyped : SortTyped sortKeys rows)
    (h : sortAndPaginate lib rows sortKeys limit offset = .ok paged) :
    paged.Pairwise fun a b => (rowOrdering sortKeys a b).isLE := by
  obtain ⟨-, -, h⟩ := bind_eq_ok.mp h
  cases h
  refine List.Pairwise.sublist ((take_sublist _ _).trans (drop_sublist _ _)) ?_
  split_ifs with hnil
  · rw [hnil]
    exact pairwise_of_forall fun _ _ => rfl
  · refine (rowOrdering_rows htyped).1.pairwise_mergeSort fun row hrow => ?_
    split_ifs at hrow
    · exact (lib.selectNth_perm _ _ rows).mem_iff.mp (mem_of_mem_take hrow)
    · exact hrow

theorem sortAndPaginate_congr {lib' : Unspecified} (h : lib'.selectNth = lib.selectNth) :
    sortAndPaginate lib' = sortAndPaginate lib := by
  funext rows sortKeys limit offset
  rw [sortAndPaginate, sortAndPaginate, sortRows, sortRows, h]

def Unspecified.sorting : Unspecified where
  selectNth cmp _ rows := rows.mergeSort fun a b => (cmp a b).isLE
  selectNth_perm _ _ _ := mergeSort_perm _ _
  visit keys := keys
  visit_perm _ := .rfl

theorem Unspecified.sorting_partitions : Unspecified.sorting.Partitions := by
  intro cmp S hpre n rows hrows _
  exact partitioned_of_pairwise (hpre.pairwise_mergeSort hrows) n

/-- The second and third of four rows, largest first. -/
theorem sortAndPaginate_four : let rows : List Row := [[.int 3], [.int 1], [.null], [.int 2]]
    ∃ paged, sortAndPaginate .sorting rows [(0, true)] (some 2) (some 1) = .ok paged ∧
      paged.Subperm rows ∧ paged.map (sortTuple [(0, true)]) =
        (page (some 2) (some 1) (rows.mergeSort fun a b => (rowOrdering [(0, true)] a b).isLE)).map
          (sortTuple [(0, true)]) := by
  refine sortAndPaginate_sorted Unspecified.sorting_partitions ?_ (by decide) _ _
  intro key hkey
  refine ⟨.int, fun row hrow => ?_⟩
  simp only [mem_singleton] at hkey
  subst hkey
  simp only [mem_cons, not_mem_nil, or_false] at hrow
  rcases hrow with rfl | rfl | rfl | rfl
  all_goals exact ⟨_, by simp [ColumnType.values, Value.HasType], rfl⟩

end

end MysqlRust
