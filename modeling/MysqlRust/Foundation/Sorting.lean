import Mathlib.Data.List.Sort
import Mathlib.Data.Set.List
import MysqlRust.Foundation.Orders

/-! # Sorting by a comparison that is total on some items

It is enough that a comparison is an order on the items that are sorted. Two sorted
arrangements of the same items then agree in what the comparison looks at.
-/
namespace Sorting

open List
variable {α κ : Type} {cmp : α → α → Ordering} {S : Set α}

/-- A comparison that is a total preorder on a set. -/
structure PreorderOn (cmp : α → α → Ordering) (S : Set α) : Prop where
  swap : ∀ a ∈ S, ∀ b ∈ S, cmp b a = (cmp a b).swap
  trans : ∀ a ∈ S, ∀ b ∈ S, ∀ c ∈ S, (cmp a b).isLE → (cmp b c).isLE → (cmp a c).isLE

def KeyedOn (cmp : α → α → Ordering) (key : α → κ) (S : Set α) : Prop :=
  ∀ a ∈ S, ∀ b ∈ S, cmp a b = .eq ↔ key a = key b

theorem PreorderOn.lt_of_lt_of_le (h : PreorderOn cmp S) {a b c : α} (ha : a ∈ S) (hb : b ∈ S)
    (hc : c ∈ S) (hab : cmp a b = .lt) (hbc : (cmp b c).isLE) : cmp a c = .lt := by
  have hac := h.trans a ha b hb c hc (by rw [hab]; rfl) hbc
  cases hcmp : cmp a c with
  | lt => rfl
  | gt => simp [hcmp] at hac
  | eq =>
    -- otherwise `b ≤ c ≤ a`
    have hca : (cmp c a).isLE := by simp [h.swap a ha c hc, hcmp]
    have hba := h.trans b hb c hc a ha hbc hca
    simp [h.swap a ha b hb, hab] at hba

theorem PreorderOn.lt_of_le_of_lt (h : PreorderOn cmp S) {a b c : α} (ha : a ∈ S) (hb : b ∈ S)
    (hc : c ∈ S) (hab : (cmp a b).isLE) (hbc : cmp b c = .lt) : cmp a c = .lt := by
  have hac := h.trans a ha b hb c hc hab (by rw [hbc]; rfl)
  cases hcmp : cmp a c with
  | lt => rfl
  | gt => simp [hcmp] at hac
  | eq =>
    have hca : (cmp c a).isLE := by simp [h.swap a ha c hc, hcmp]
    have hcb := h.trans c hc a ha b hb hca hab
    simp [h.swap b hb c hc, hbc] at hcb

theorem PreorderOn.reverse (h : PreorderOn cmp S) : PreorderOn (fun a b => (cmp a b).swap) S where
  swap a ha b hb := congrArg Ordering.swap (h.swap a ha b hb)
  trans a ha b hb c hc hab hbc := by
    rw [← h.swap a ha b hb] at hab
    rw [← h.swap b hb c hc] at hbc
    rw [← h.swap a ha c hc]
    exact h.trans c hc b hb a ha hbc hab

theorem PreorderOn.then {cmp' : α → α → Ordering} (h : PreorderOn cmp S) (h' : PreorderOn cmp' S) :
    PreorderOn (fun a b => (cmp a b).then (cmp' a b)) S where
  swap a ha b hb := by
    rw [h.swap a ha b hb, h'.swap a ha b hb, Ordering.swap_then]
  trans a ha b hb c hc hab hbc := by
    rw [Ordering.isLE_then_iff_or] at *
    rcases hab with hab | ⟨hab, hab'⟩
    · have hle : (cmp b c).isLE := by
        rcases hbc with hbc | ⟨hbc, -⟩
        · rw [hbc]
          rfl
        · rw [hbc]
          rfl
      exact .inl (h.lt_of_lt_of_le ha hb hc hab hle)
    · rcases hbc with hbc | ⟨hbc, hbc'⟩
      · exact .inl (h.lt_of_le_of_lt ha hb hc (by rw [hab]; rfl) hbc)
      · have hac := h.trans a ha b hb c hc (by rw [hab]; rfl) (by rw [hbc]; rfl)
        cases hcmp : cmp a c with
        | lt => exact .inl rfl
        | gt => simp [hcmp] at hac
        | eq => exact .inr ⟨rfl, h'.trans a ha b hb c hc hab' hbc'⟩

theorem PreorderOn.of_total (h : Orders.TotalOrderOn cmp S) : PreorderOn cmp S where
  swap := h.swap
  trans a ha b hb c hc hab hbc := by
    cases hcmp : cmp a b with
    | gt => simp [hcmp] at hab
    | eq =>
      rw [(h.eq_iff a ha b hb).mp hcmp]
      exact hbc
    | lt =>
      cases hcmp' : cmp b c with
      | gt => simp [hcmp'] at hbc
      | eq =>
        rw [← (h.eq_iff b hb c hc).mp hcmp']
        exact hab
      | lt =>
        rw [h.trans a ha b hb c hc hcmp hcmp']
        rfl

theorem PreorderOn.comap {β : Type} {T : Set β} (h : PreorderOn cmp S) {f : β → α}
    (hf : ∀ b ∈ T, f b ∈ S) : PreorderOn (fun a b => cmp (f a) (f b)) T where
  swap a ha b hb := h.swap (f a) (hf a ha) (f b) (hf b hb)
  trans a ha b hb c hc := h.trans (f a) (hf a ha) (f b) (hf b hb) (f c) (hf c hc)

section Sorted
variable {rows : List α} {key : α → κ}

/-- Sorting by a preorder leaves the rows in order. -/
theorem PreorderOn.pairwise_mergeSort (h : PreorderOn cmp S) (hrows : ∀ a ∈ rows, a ∈ S) :
    (rows.mergeSort fun a b => (cmp a b).isLE).Pairwise fun a b => (cmp a b).isLE := by
  lift rows to List S using hrows
  -- on the items of the set alone the comparison is total and transitive everywhere
  have htotal : ∀ a b : S, ((cmp a b).isLE || (cmp b a).isLE) = true := by
    intro a b
    rw [h.swap a a.2 b b.2]
    cases cmp a b <;> rfl
  have hsorted : (rows.mergeSort fun a b : S => (cmp a b).isLE).Pairwise
      fun a b : S => (cmp a b).isLE :=
    pairwise_mergeSort (fun a b c : S => h.trans a a.2 b b.2 c c.2) htotal rows
  have hmap : (rows.mergeSort fun a b : S => (cmp a b).isLE).map Subtype.val =
      (rows.map Subtype.val).mergeSort fun a b => (cmp a b).isLE :=
    map_mergeSort fun _ _ _ _ => rfl
  rw [← hmap, pairwise_map]
  exact hsorted

/-- Two sorted arrangements of the same items have the same keys in the same places. -/
theorem PreorderOn.map_key_eq (h : PreorderOn cmp S) (hkey : KeyedOn cmp key S) {l l' : List α}
    (hl : ∀ a ∈ l, a ∈ S) (hperm : l.Perm l') (hsorted : l.Pairwise fun a b => (cmp a b).isLE)
    (hsorted' : l'.Pairwise fun a b => (cmp a b).isLE) : l.map key = l'.map key := by
  have hl' : ∀ a ∈ l', a ∈ S := fun a ha => hl a (hperm.mem_iff.mpr ha)
  -- keys are compared through items that carry them
  let le : κ → κ → Prop := fun k k' => ∃ a ∈ S, ∃ b ∈ S, key a = k ∧ key b = k' ∧ (cmp a b).isLE
  have hle : ∀ l : List α, (∀ a ∈ l, a ∈ S) → (l.Pairwise fun a b => (cmp a b).isLE) →
      (l.map key).Pairwise le := by
    intro l hl hsorted
    rw [pairwise_map]
    exact hsorted.imp_of_mem fun {a b} ha hb hab => ⟨a, hl a ha, b, hl b hb, rfl, rfl, hab⟩
  refine List.Perm.eq_of_pairwise ?_ (hle l hl hsorted) (hle l' hl' hsorted') (hperm.map key)
  rintro k k' - - ⟨a, ha, b, hb, rfl, rfl, hab⟩ ⟨b', hb', a', ha', hkb, hka, hba⟩
  have heqb := (hkey b hb b' hb').mpr hkb.symm
  have heqa := (hkey a' ha' a ha).mpr hka
  have hbb' : (cmp b b').isLE := by rw [heqb]; rfl
  have haa' : (cmp a' a).isLE := by rw [heqa]; rfl
  have hle := h.trans b hb b' hb' a ha hbb' (h.trans b' hb' a' ha' a ha hba haa')
  rw [h.swap a ha b hb] at hle
  refine (hkey a ha b hb).mp ?_
  cases hcmp : cmp a b with
  | eq => rfl
  | lt => simp [hcmp] at hle
  | gt => simp [hcmp] at hab

theorem PreorderOn.map_key_front (h : PreorderOn cmp S) (hkey : KeyedOn cmp key S)
    {front back : List α} (hrows : ∀ a ∈ rows, a ∈ S) (hperm : (front ++ back).Perm rows)
    (hfront : ∀ a ∈ front, ∀ b ∈ back, (cmp a b).isLE) :
    (front.mergeSort fun a b => (cmp a b).isLE).map key =
      ((rows.mergeSort fun a b => (cmp a b).isLE).map key).take front.length := by
  have hsplit : ∀ a ∈ front ++ back, a ∈ S := fun a ha => hrows a (hperm.mem_iff.mp ha)
  have hf := fun a ha => hsplit a (mem_append_left back ha)
  have hb := fun a ha => hsplit a (mem_append_right front ha)
  have hsorts : ((front.mergeSort fun a b => (cmp a b).isLE) ++
      (back.mergeSort fun a b => (cmp a b).isLE)).Perm (rows.mergeSort fun a b => (cmp a b).isLE) :=
    ((mergeSort_perm _ _).append (mergeSort_perm _ _)).trans
      (hperm.trans (mergeSort_perm _ _).symm)
  have hmap := h.map_key_eq hkey
    (fun a ha => hrows a (mem_mergeSort.mp (hsorts.mem_iff.mp ha))) hsorts
    (pairwise_append.mpr ⟨h.pairwise_mergeSort hf, h.pairwise_mergeSort hb, fun a ha b hb =>
      hfront a (mem_mergeSort.mp ha) b (mem_mergeSort.mp hb)⟩)
    (h.pairwise_mergeSort hrows)
  rw [← hmap, map_append, take_left' (by rw [length_map, length_mergeSort])]

end Sorted

def Partitioned (cmp : α → α → Ordering) (n : Nat) (l : List α) : Prop :=
  ∀ pivot, l[n]? = some pivot →
    (∀ a ∈ l.take n, (cmp a pivot).isLE) ∧ ∀ b ∈ l.drop (n + 1), (cmp pivot b).isLE

theorem Partitioned.front_le (h : PreorderOn cmp S) {n : Nat} {l : List α} (hl : ∀ a ∈ l, a ∈ S)
    (hn : n < l.length) (hpart : Partitioned cmp n l) :
    ∀ a ∈ l.take (n + 1), ∀ b ∈ l.drop (n + 1), (cmp a b).isLE := by
  intro a ha b hb
  obtain ⟨hbefore, hafter⟩ := hpart l[n] (List.getElem?_eq_getElem hn)
  rw [take_succ_eq_append_getElem hn, mem_append, mem_singleton] at ha
  rcases ha with ha | rfl
  · exact h.trans a (hl a (mem_of_mem_take ha)) l[n] (hl _ (getElem_mem hn)) b
      (hl b (mem_of_mem_drop hb)) (hbefore a ha) (hafter b hb)
  · exact hafter b hb

theorem partitioned_of_pairwise {l : List α} (h : l.Pairwise fun a b => (cmp a b).isLE) (n : Nat) :
    Partitioned cmp n l := by
  intro pivot hpivot
  obtain ⟨hlt, rfl⟩ := List.getElem?_eq_some_iff.mp hpivot
  rw [← take_append_drop n l, drop_eq_getElem_cons hlt, pairwise_append, pairwise_cons] at h
  exact ⟨fun a ha => h.2.2 a ha l[n] mem_cons_self, h.2.1.1⟩

end Sorting
