import Mathlib.Algebra.BigOperators.Ring.Finset
import Mathlib.Data.Finmap
import Mathlib.Data.List.Basic

/-! # Joins and groups of lists

A join by nested loops goes through the left items in order and pairs each with its matches in
order. An index of the items by key finds the same matches without going through all of them.
-/
namespace Relations

open List
variable {α β γ κ : Type}

section
variable {matching : α → β → Bool} {combine : α → β → γ} {alone : α → List γ} {rights : List β}
  {left : α}

/-- A left item with each of its matches, or what it leaves when it has none. -/
def matched (matching : α → β → Bool) (combine : α → β → γ) (alone : α → List γ)
    (rights : List β) (left : α) : List γ :=
  match rights.filter (matching left) with
  | [] => alone left
  | found => found.map (combine left)

def nestedLoop (matching : α → β → Bool) (combine : α → β → γ) (alone : α → List γ)
    (lefts : List α) (rights : List β) : List γ :=
  lefts.flatMap (matched matching combine alone rights)

theorem matched_of_nil (h : rights.filter (matching left) = []) :
    matched matching combine alone rights left = alone left := by
  rw [matched, h]

theorem matched_of_ne_nil (h : rights.filter (matching left) ≠ []) :
    matched matching combine alone rights left =
      (rights.filter (matching left)).map (combine left) := by
  unfold matched
  cases hfound : rights.filter (matching left) with
  | nil => exact absurd hfound h
  | cons => rfl

theorem nestedLoop_congr {matching' : α → β → Bool} {lefts : List α}
    (h : ∀ left ∈ lefts, ∀ right ∈ rights, matching left right = matching' left right) :
    nestedLoop matching combine alone lefts rights =
      nestedLoop matching' combine alone lefts rights := by
  refine flatMap_congr fun left hleft => ?_
  rw [matched, matched, filter_congr (h left hleft)]

theorem mem_matched {c : γ} (h : c ∈ matched matching combine alone rights left) :
    c ∈ alone left ∨ ∃ right ∈ rights, c = combine left right := by
  by_cases hnil : rights.filter (matching left) = []
  · rw [matched_of_nil hnil] at h
    exact .inl h
  · rw [matched_of_ne_nil hnil] at h
    obtain ⟨right, hright, rfl⟩ := mem_map.mp h
    exact .inr ⟨right, (mem_filter.mp hright).1, rfl⟩

variable [DecidableEq κ]

def bucket (items : List (κ × β)) (k : κ) : List β := (items.filter (·.1 = k)).map Prod.snd

theorem bucket_concat (items : List (κ × β)) (k k' : κ) (b : β) :
    bucket (items ++ [(k, b)]) k' = if k = k' then bucket items k' ++ [b] else bucket items k' := by
  rw [bucket, filter_append, map_append, ← bucket]
  by_cases hk : k = k' <;> simp [hk]

def Indexes (index : Finmap fun _ : κ => List β) (items : List (κ × β)) : Prop :=
  ∀ k, index.lookup k = if bucket items k = [] then none else some (bucket items k)

theorem indexes_empty : Indexes (∅ : Finmap fun _ : κ => List β) [] := fun k =>
  Finmap.lookup_empty k

theorem Indexes.insert {index : Finmap fun _ : κ => List β} {items : List (κ × β)}
    (h : Indexes index items) (k : κ) (b : β) :
    Indexes (index.insert k ((index.lookup k).getD [] ++ [b])) (items ++ [(k, b)]) := by
  have hgetD : (index.lookup k).getD [] = bucket items k := by
    rw [h k]
    split_ifs with hnil
    · exact hnil.symm
    · rfl
  intro k'
  rw [bucket_concat]
  by_cases hk : k = k'
  · subst hk
    rw [Finmap.lookup_insert, hgetD, if_pos rfl, if_neg (by simp)]
  · rw [Finmap.lookup_insert_of_ne _ (Ne.symm hk), h k', if_neg hk]

variable {key : α → κ} {items : List α} {groups : List (κ × List α)}

def enter (k : κ) (a : α) : List (κ × List α) → List (κ × List α)
  | [] => [(k, [a])]
  | g :: groups => if g.1 = k then (g.1, g.2 ++ [a]) :: groups else g :: enter k a groups

theorem map_fst_enter (k : κ) (a : α) (groups : List (κ × List α)) :
    (enter k a groups).map Prod.fst =
      if k ∈ groups.map Prod.fst then groups.map Prod.fst else groups.map Prod.fst ++ [k] := by
  induction groups with
  | nil => rfl
  | cons g groups ih =>
    rw [enter]
    by_cases hk : g.1 = k
    · rw [if_pos hk, if_pos (by simp [hk])]
      rfl
    · rw [if_neg hk, map_cons, map_cons, ih]
      simp only [mem_cons, Ne.symm hk, false_or]
      split_ifs <;> rfl

theorem mem_enter {k : κ} {a : α} (hdistinct : (groups.map Prod.fst).Nodup) {g : κ × List α}
    (hg : g ∈ enter k a groups) :
    g ∈ groups ∧ g.1 ≠ k ∨
      g.1 = k ∧ (k ∉ groups.map Prod.fst ∧ g.2 = [a] ∨ ∃ as, (k, as) ∈ groups ∧ g.2 = as ++ [a]) := by
  induction groups with
  | nil =>
    rw [enter, mem_singleton] at hg
    subst hg
    exact .inr ⟨rfl, .inl ⟨not_mem_nil, rfl⟩⟩
  | cons g' groups ih =>
    rw [map_cons, nodup_cons] at hdistinct
    rw [enter] at hg
    by_cases hk : g'.1 = k
    · rw [if_pos hk, mem_cons] at hg
      rcases hg with rfl | hg
      · exact .inr ⟨hk, .inr ⟨g'.2, by rw [← hk]; exact mem_cons_self, rfl⟩⟩
      · refine .inl ⟨mem_cons_of_mem g' hg, fun hgk => hdistinct.1 ?_⟩
        rw [hk, ← hgk]
        exact mem_map_of_mem hg
    · rw [if_neg hk, mem_cons] at hg
      rcases hg with rfl | hg
      · exact .inl ⟨mem_cons_self, hk⟩
      · rcases ih hdistinct.2 hg with ⟨hmem, hne⟩ | ⟨hgk, ⟨hnew, hrows⟩ | ⟨as, has, hrows⟩⟩
        · exact .inl ⟨mem_cons_of_mem g' hmem, hne⟩
        · refine .inr ⟨hgk, .inl ⟨fun hmem => ?_, hrows⟩⟩
          rcases mem_cons.mp hmem with hhead | htail
          · exact hk hhead.symm
          · exact hnew htail
        · exact .inr ⟨hgk, .inr ⟨as, mem_cons_of_mem g' has, hrows⟩⟩

/-- One group for each key that occurs, holding the items with that key in order. -/
structure Groups (key : α → κ) (items : List α) (groups : List (κ × List α)) : Prop where
  distinct : (groups.map Prod.fst).Nodup
  keys : ∀ k, k ∈ groups.map Prod.fst ↔ ∃ a ∈ items, key a = k
  members : ∀ g ∈ groups, g.2 = items.filter (key · = g.1)

theorem groups_nil : Groups key [] [] where
  distinct := .nil
  keys k := by simp
  members g hg := by cases hg

theorem Groups.enter (h : Groups key items groups) (a : α) :
    Groups key (items ++ [a]) (enter (key a) a groups) where
  distinct := by
    rw [map_fst_enter]
    split_ifs with hmem
    · exact h.distinct
    · exact nodup_append.mpr ⟨h.distinct, nodup_singleton _, fun k hk k' hk' heq =>
        hmem (mem_singleton.mp hk' ▸ heq ▸ hk)⟩
  keys k := by
    have hkeys : k ∈ (Relations.enter (key a) a groups).map Prod.fst ↔
        k ∈ groups.map Prod.fst ∨ key a = k := by
      rw [map_fst_enter]
      split_ifs with hmem
      · refine ⟨.inl, ?_⟩
        rintro (hk | rfl)
        · exact hk
        · exact hmem
      · rw [mem_append, mem_singleton, eq_comm]
    rw [hkeys, h.keys k]
    simp [or_and_right, exists_or]
  members g hg := by
    rw [filter_append]
    rcases mem_enter h.distinct hg with ⟨hmem, hne⟩ | ⟨hgk, ⟨hnew, hrows⟩ | ⟨as, has, hrows⟩⟩
    · rw [h.members g hmem, filter_cons_of_neg (by simpa using hne.symm), filter_nil, append_nil]
    · have hnone : items.filter (key · = g.1) = [] := by
        refine filter_eq_nil_iff.mpr fun b hb heq => hnew ((h.keys _).mpr ⟨b, hb, ?_⟩)
        rw [of_decide_eq_true heq, hgk]
      rw [hnone, filter_cons_of_pos (by simp [hgk]), hrows]
      rfl
    · have hold : as = items.filter (key · = key a) := h.members _ has
      rw [hrows, hgk, filter_cons_of_pos (by simp), ← hold]
      rfl

theorem sum_length_filter {keys : List κ} (hdistinct : keys.Nodup)
    (hkeys : ∀ a ∈ items, key a ∈ keys) :
    (keys.map fun k => (items.filter (key · = k)).length).sum = items.length := by
  induction items with
  | nil => simp
  | cons a items ih =>
    have hone : (keys.map fun k => if key a = k then 1 else 0).sum = 1 := by
      rw [← sum_toFinset _ hdistinct, Finset.sum_ite_eq, if_pos]
      exact mem_toFinset.mpr (hkeys a mem_cons_self)
    have hcons : ∀ k, ((a :: items).filter (key · = k)).length =
        (if key a = k then 1 else 0) + (items.filter (key · = k)).length := by
      intro k
      rw [filter_cons]
      by_cases hk : key a = k <;> simp [hk, Nat.add_comm]
    simp only [hcons]
    rw [sum_map_add, hone, ih fun b hb => hkeys b (mem_cons_of_mem a hb), length_cons, Nat.add_comm]

end

end Relations
