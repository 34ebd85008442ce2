import Mathlib.Algebra.GroupWithZero.Nat
import Mathlib.Data.List.Forall2

/-! # Lists changed at one place, and lists related element by element -/
namespace Lists

open List
variable {α β : Type}

variable {xs : List α} {ys : List β} {R : α → β → Prop} {f : α → β} {i idx : Nat} {b : β} {γ : Type}

variable {a x : α} {zs : List γ}

theorem map_set_of_eq {l : List α} (h : ∀ b, l[idx]? = some b → f a = f b) :
    (l.set idx a).map f = l.map f := by
  refine ext_getElem? fun j => ?_
  rw [getElem?_map, getElem?_map, getElem?_set]
  split
  · rename_i heq
    subst heq
    split
    · rename_i hlt
      rw [getElem?_eq_getElem hlt, Option.map_some, Option.map_some, h _ (getElem?_eq_getElem hlt)]
    · rename_i hge
      rw [getElem?_eq_none (by omega)]
  · rfl

theorem map_modify_of_eq {g : α → α} (h : ∀ a, f (g a) = f a) (l : List α) (idx : Nat) :
    (l.modify idx g).map f = l.map f := by
  refine ext_getElem? fun j => ?_
  rw [getElem?_map, getElem?_map, getElem?_modify]
  cases l[j]? with
  | none => rfl
  | some a =>
    split
    · exact congrArg some (h a)
    · rfl

theorem eraseIdx_concat (xs : List α) (x : α) : (xs ++ [x]).eraseIdx xs.length = xs := by
  simp [eraseIdx_append_of_length_le]

theorem findIdx?_eraseIdx {p : α → Bool} {columns : List α} {row : List β}
    (hlen : row.length = columns.length) (hi : columns.findIdx? p = some i)
    (hidx : ∀ c, columns[idx]? = some c → p c = false) :
    ∃ j, (columns.eraseIdx idx).findIdx? p = some j ∧ (row.eraseIdx idx)[j]? = row[i]? := by
  induction columns generalizing row idx i with
  | nil => simp at hi
  | cons c columns ih =>
    cases row with
    | nil => simp at hlen
    | cons v row =>
      have hlen : row.length = columns.length := by simpa using hlen
      rw [findIdx?_cons] at hi
      cases idx with
      | zero =>
        simp only [hidx c rfl, Bool.false_eq_true, ↓reduceIte, Option.map_eq_some_iff] at hi
        obtain ⟨j, hj, rfl⟩ := hi
        exact ⟨j, hj, by simp⟩
      | succ idx =>
        rw [eraseIdx_cons_succ, eraseIdx_cons_succ, findIdx?_cons]
        split at hi
        · rename_i hp
          cases hi
          exact ⟨0, by rw [if_pos hp], rfl⟩
        · rename_i hp
          obtain ⟨k, hk, rfl⟩ := Option.map_eq_some_iff.mp hi
          obtain ⟨j, hj, hcell⟩ := ih hlen hk fun d hd => hidx d (by simpa using hd)
          refine ⟨j + 1, by rw [if_neg hp, hj]; rfl, by simpa using hcell⟩

theorem forall₂_map_eq {f : α → γ} {g : β → γ} (h : Forall₂ R xs ys)
    (hfg : ∀ a b, R a b → f a = g b) : xs.map f = ys.map g := by
  induction h with
  | nil => rfl
  | cons hab _ ih => rw [map_cons, map_cons, hfg _ _ hab, ih]

theorem forall₂_getElem? (h : Forall₂ R xs ys) (hb : ys[i]? = some b) :
    ∃ a, xs[i]? = some a ∧ R a b := by
  induction h generalizing i with
  | nil => simp at hb
  | @cons a c xs ys hac _ ih =>
    cases i with
    | zero =>
      cases hb
      exact ⟨a, rfl, hac⟩
    | succ i => exact ih hb

theorem forall₂_mem_right (h : Forall₂ R xs ys) (hb : b ∈ ys) : ∃ a ∈ xs, R a b := by
  induction h with
  | nil => simp at hb
  | @cons a c xs ys hac _ ih =>
    rcases mem_cons.mp hb with rfl | hb
    · exact ⟨a, mem_cons_self, hac⟩
    · obtain ⟨a', ha', hab⟩ := ih hb
      exact ⟨a', mem_cons_of_mem a ha', hab⟩

theorem forall₂_mem_left (h : Forall₂ R xs ys) (ha : a ∈ xs) : ∃ b ∈ ys, R a b :=
  forall₂_mem_right h.flip ha

theorem forall₂_comp {S : β → γ → Prop} {T : α → γ → Prop} (hT : ∀ a b c, R a b → S b c → T a c)
    (h : Forall₂ R xs ys) (h' : Forall₂ S ys zs) : Forall₂ T xs zs := by
  induction h generalizing zs with
  | nil =>
    cases h'
    exact .nil
  | cons hxy _ ih =>
    cases h' with
    | cons hyz h' => exact .cons (hT _ _ _ hxy hyz) (ih h')

theorem forall₂_pairwise {S : α → α → Prop} {T : β → β → Prop}
    (hST : ∀ a b a' b', R a b → R a' b' → S a a' → T b b') (h : Forall₂ R xs ys)
    (hxs : xs.Pairwise S) : ys.Pairwise T := by
  induction h with
  | nil => exact .nil
  | @cons a b xs ys hab hrest ih =>
    obtain ⟨ha, hxs⟩ := pairwise_cons.mp hxs
    refine .cons (fun b' hb' => ?_) (ih hxs)
    obtain ⟨a', ha', hab'⟩ := forall₂_mem_right hrest hb'
    exact hST a b a' b' hab hab' (ha a' ha')

theorem find?_of_nodup [DecidableEq β] (hnodup : (xs.map f).Nodup) (hx : x ∈ xs) :
    xs.find? (fun y => f y = f x) = some x := by
  induction xs with
  | nil => cases hx
  | cons y xs ih =>
    obtain ⟨hy, hnodup⟩ := nodup_cons.mp hnodup
    rcases mem_cons.mp hx with rfl | hx
    · simp
    · have hne : f y ≠ f x := fun heq => hy (heq ▸ mem_map_of_mem hx)
      simp [hne, ih hnodup hx]

inductive Threaded (R : Nat → α → β → Nat → Prop) : Nat → List α → List β → Nat → Prop
  | nil (k : Nat) : Threaded R k [] [] k
  | cons {k k' k'' : Nat} {a : α} {b : β} {as : List α} {bs : List β} (head : R k a b k')
      (tail : Threaded R k' as bs k'') : Threaded R k (a :: as) (b :: bs) k''

section Threaded
variable {R : Nat → α → β → Nat → Prop} {k k' : Nat} {as : List α} {bs : List β}

theorem Threaded.length_eq (h : Threaded R k as bs k') : as.length = bs.length := by
  induction h with
  | nil k => rfl
  | cons _ _ ih => simp [ih]

theorem Threaded.total {cost : α → Nat} (hR : ∀ k a b k', R k a b k' → k' = k + cost a)
    (h : Threaded R k as bs k') : k' = k + (as.map cost).sum := by
  induction h with
  | nil k => simp
  | cons head tail ih =>
    rw [ih, hR _ _ _ _ head, map_cons, sum_cons]
    omega

theorem Threaded.le (hR : ∀ k a b k', R k a b k' → k ≤ k') (h : Threaded R k as bs k') : k ≤ k' := by
  induction h with
  | nil k => exact Nat.le_refl k
  | cons head _ ih => exact Nat.le_trans (hR _ _ _ _ head) ih

theorem Threaded.getElem? (hR : ∀ k a b k', R k a b k' → k ≤ k') (h : Threaded R k as bs k')
    {i : Nat} {b : β} (hb : bs[i]? = some b) :
    ∃ a j j', as[i]? = some a ∧ R j a b j' ∧ k ≤ j ∧ j' ≤ k' := by
  induction h generalizing i with
  | nil k => simp at hb
  | @cons k k₁ k₂ a b' as bs head tail ih =>
    cases i with
    | zero =>
      cases hb
      exact ⟨a, k, k₁, rfl, head, Nat.le_refl k, tail.le hR⟩
    | succ i =>
      obtain ⟨a', j, j', ha, hstep, hj, hj'⟩ := ih hb
      exact ⟨a', j, j', ha, hstep, Nat.le_trans (hR _ _ _ _ head) hj, hj'⟩

theorem Threaded.getElem?_lt (hR : ∀ k a b k', R k a b k' → k ≤ k') (h : Threaded R k as bs k')
    {p q : Nat} {b c : β} (hpq : p < q) (hb : bs[p]? = some b) (hc : bs[q]? = some c) :
    ∃ a a' j j' l l', as[p]? = some a ∧ as[q]? = some a' ∧ R j a b j' ∧ R l a' c l' ∧
      k ≤ j ∧ j' ≤ l ∧ l' ≤ k' := by
  induction h generalizing p q with
  | nil k => simp at hb
  | @cons k k₁ k₂ a b' as bs head tail ih =>
    obtain ⟨q, rfl⟩ : ∃ m, q = m + 1 := ⟨q - 1, by omega⟩
    cases p with
    | zero =>
      cases hb
      obtain ⟨a', l, l', ha', hstep, hl, hl'⟩ := tail.getElem? hR hc
      exact ⟨a, a', k, k₁, l, l', rfl, ha', head, hstep, Nat.le_refl k, hl, hl'⟩
    | succ p =>
      obtain ⟨a₁, a₂, j, j', l, l', ha₁, ha₂, hj, hl, hkj, hjl, hlk⟩ := ih (by omega) hb hc
      exact ⟨a₁, a₂, j, j', l, l', ha₁, ha₂, hj, hl, Nat.le_trans (hR _ _ _ _ head) hkj, hjl, hlk⟩

end Threaded

theorem filter_of_nodup [DecidableEq β] (hnodup : (xs.map f).Nodup) (b : β) :
    xs.filter (fun x => f x = b) = (xs.find? fun x => f x = b).toList := by
  induction xs with
  | nil => rfl
  | cons x xs ih =>
    obtain ⟨hx, hnodup⟩ := nodup_cons.mp hnodup
    by_cases heq : f x = b
    · have hnone : xs.filter (fun y => f y = b) = [] := by
        refine filter_eq_nil_iff.mpr fun y hy hb => hx ?_
        rw [heq, ← of_decide_eq_true hb]
        exact mem_map_of_mem hy
      rw [filter_cons_of_pos (by simpa using heq), find?_cons_of_pos (by simpa using heq), hnone]
      rfl
    · rw [filter_cons_of_neg (by simpa using heq), find?_cons_of_neg (by simpa using heq),
        ih hnodup]

theorem eraseIdx_eq_filter [DecidableEq β] (hnodup : (xs.map f).Nodup)
    (hi : (xs.map f)[i]? = some b) : xs.eraseIdx i = xs.filter fun x => f x ≠ b := by
  induction xs generalizing i with
  | nil => simp at hi
  | cons x xs ih =>
    obtain ⟨hx, hnodup⟩ := nodup_cons.mp hnodup
    cases i with
    | zero =>
      have hb : f x = b := by simpa using hi
      have hrest : xs.filter (fun y => f y ≠ b) = xs := by
        refine filter_eq_self.mpr fun y hy => decide_eq_true fun heq => hx ?_
        rw [hb, ← heq]
        exact mem_map_of_mem hy
      rw [filter_cons_of_neg (by simpa using hb), hrest, eraseIdx_cons_zero]
    | succ i =>
      have hi : (xs.map f)[i]? = some b := by simpa using hi
      have hne : f x ≠ b := by
        rintro rfl
        exact hx (mem_of_getElem? hi)
      simp [hne, ih hnodup hi]

theorem set_eq_map [DecidableEq β] (hnodup : (xs.map f).Nodup) (hi : (xs.map f)[i]? = some b)
    (a : α) : xs.set i a = xs.map fun x => if f x = b then a else x := by
  refine ext_getElem? fun j => ?_
  rw [getElem?_set, getElem?_map]
  split
  · rename_i heq
    subst heq
    obtain ⟨x, hx, hb⟩ := Option.map_eq_some_iff.mp (getElem?_map ▸ hi)
    rw [if_pos (List.getElem?_eq_some_iff.mp hx).1, hx, Option.map_some, if_pos hb]
  · rename_i hne
    cases hx : xs[j]? with
    | none => rfl
    | some x =>
      have hb : f x ≠ b := by
        intro hb
        have hj : (xs.map f)[j]? = some b := by rw [getElem?_map, hx, Option.map_some, hb]
        have hlt := (List.getElem?_eq_some_iff.mp hi).1
        exact hne ((getElem?_inj hlt hnodup).mp (hi.trans hj.symm))
      simp [hb]

theorem pairwise_of_fibers [DecidableEq β] {R : α → α → Prop} (f : α → β)
    (hne : ∀ x y, f x ≠ f y → R x y) (h : ∀ x ∈ xs, (xs.filter fun y => f y = f x).Pairwise R) :
    xs.Pairwise R := by
  induction xs with
  | nil => exact .nil
  | cons x xs ih =>
    constructor
    · intro y hy
      by_cases heq : f y = f x
      · have hx := h x mem_cons_self
        rw [filter_cons_of_pos (by simp), pairwise_cons] at hx
        exact hx.1 y (mem_filter.mpr ⟨hy, by simpa using heq⟩)
      · exact hne x y (Ne.symm heq)
    · refine ih fun y hy => ?_
      exact (h y (mem_cons_of_mem x hy)).sublist (Sublist.filter _ (sublist_cons_self x xs))

theorem forall₂_zip_right {R : α × β → γ → Prop} {S : γ → β → Prop} (hlen : xs.length = ys.length)
    (h : Forall₂ R (xs.zip ys) zs) (hRS : ∀ p ∈ xs.zip ys, ∀ c, R p c → S c p.2) :
    Forall₂ S zs ys := by
  induction xs generalizing ys zs with
  | nil =>
    cases ys with
    | nil =>
      cases h
      exact .nil
    | cons b ys => simp at hlen
  | cons a xs ih =>
    cases ys with
    | nil => simp at hlen
    | cons b ys =>
      rw [zip_cons_cons] at h hRS
      cases h with
      | cons hab hrest =>
        refine .cons (hRS _ mem_cons_self _ hab) (ih (by simpa using hlen) hrest ?_)
        exact fun p hp => hRS p (mem_cons_of_mem _ hp)

theorem forall₂_eraseIdx (h : Forall₂ R xs ys) (idx : Nat) :
    Forall₂ R (xs.eraseIdx idx) (ys.eraseIdx idx) := by
  induction h generalizing idx with
  | nil => exact .nil
  | cons hab hrest ih =>
    cases idx with
    | zero => exact hrest
    | succ idx => exact .cons hab (ih idx)

theorem forall₂_modify {f : α → α} {g : β → β} (h : Forall₂ R xs ys)
    (hfg : ∀ a b, xs[idx]? = some a → ys[idx]? = some b → R a b → R (f a) (g b)) :
    Forall₂ R (xs.modify idx f) (ys.modify idx g) := by
  induction h generalizing idx with
  | nil => simp
  | @cons a b xs ys hab hrest ih =>
    cases idx with
    | zero => exact .cons (hfg a b rfl rfl hab) hrest
    | succ idx => exact .cons hab (ih hfg)

theorem flatMap_filter {f : α → List β} {p : α → Prop} [DecidablePred p]
    (h : ∀ x ∈ xs, ¬ p x → f x = []) : (xs.filter p).flatMap f = xs.flatMap f := by
  induction xs with
  | nil => rfl
  | cons x xs ih =>
    have hrest := ih fun y hy => h y (mem_cons_of_mem x hy)
    by_cases hx : p x
    · rw [filter_cons_of_pos (by simpa using hx), flatMap_cons, flatMap_cons, hrest]
    · rw [filter_cons_of_neg (by simpa using hx), flatMap_cons,
        h x mem_cons_self hx, nil_append, hrest]

theorem flatMap_of_nodup {f : α → List γ} {key : α → β} (hnodup : (xs.map key).Nodup) (hx : x ∈ xs)
    (h : ∀ y ∈ xs, key y ≠ key x → f y = []) : xs.flatMap f = f x := by
  induction xs with
  | nil => cases hx
  | cons y xs ih =>
    obtain ⟨hy, hnodup⟩ := nodup_cons.mp hnodup
    have hrest : ∀ z ∈ xs, key z ≠ key x → f z = [] := fun z hz => h z (mem_cons_of_mem y hz)
    rw [flatMap_cons]
    rcases mem_cons.mp hx with rfl | hx
    · have hnil : xs.flatMap f = [] := by
        refine flatMap_eq_nil_iff.mpr fun z hz => hrest z hz fun heq => hy ?_
        exact heq ▸ mem_map_of_mem hz
      rw [hnil, append_nil]
    · have hne : key y ≠ key x := fun heq => hy (heq ▸ mem_map_of_mem hx)
      rw [h y mem_cons_self hne, nil_append, ih hnodup hx hrest]

theorem length_le_flatten {ls : List (List α)} (h : ∀ l ∈ ls, l ≠ []) :
    ls.length ≤ ls.flatten.length := by
  induction ls with
  | nil => exact Nat.zero_le _
  | cons l ls ih =>
    have hpos := length_pos_iff.mpr (h l mem_cons_self)
    have hrest := ih fun m hm => h m (mem_cons_of_mem l hm)
    rw [flatten_cons, length_append, length_cons]
    omega

section
variable {m : Type → Type} [Monad m] {σ : Type}

/-- Two actions have one effect in either order. -/
def Commutes (f g : σ → m σ) : Prop := ∀ s, (f s >>= g) = g s >>= f

theorem Commutes.symm {f g : σ → m σ} (h : Commutes f g) : Commutes g f := fun s => (h s).symm

variable [LawfulMonad m]

theorem Commutes.foldlM {f : σ → α → m σ} {g : σ → m σ} {l : List α}
    (h : ∀ a ∈ l, Commutes (f · a) g) : Commutes (l.foldlM f) g := by
  induction l with
  | nil => simp [Commutes]
  | cons a l ih =>
    intro s
    have ha : (f s a >>= g) = g s >>= (f · a) := h a mem_cons_self s
    have hl := funext (ih fun b hb => h b (mem_cons_of_mem a hb))
    simp only [foldlM_cons, bind_assoc] at hl ⊢
    rw [hl, ← bind_assoc, ha, bind_assoc]

theorem erase_eq_takeWhile [DecidableEq α] {a : α} {l : List α} (ha : a ∈ l) : ∃ behind,
    l = l.takeWhile (· ≠ a) ++ a :: behind ∧ l.erase a = l.takeWhile (· ≠ a) ++ behind := by
  obtain ⟨ahead, behind, hnot, rfl, herase⟩ := exists_erase_eq ha
  have hahead : (ahead ++ a :: behind).takeWhile (· ≠ a) = ahead := by
    rw [takeWhile_append_of_pos fun d hd => by simpa using ne_of_mem_of_not_mem hd hnot]
    simp
  rw [hahead]
  exact ⟨behind, rfl, herase⟩

/-- An element that commutes with those ahead of it can be taken first. -/
theorem foldlM_cons_erase [DecidableEq α] {f : σ → α → m σ} {a : α} {l : List α} (ha : a ∈ l)
    (h : ∀ b ∈ l.takeWhile (· ≠ a), Commutes (f · b) (f · a)) (s : σ) :
    (a :: l.erase a).foldlM f s = l.foldlM f s := by
  obtain ⟨behind, hl, herase⟩ := erase_eq_takeWhile ha
  have hahead := Commutes.foldlM h s
  rw [herase, foldlM_cons]
  conv_rhs => rw [hl]
  simp only [foldlM_append, foldlM_cons, ← bind_assoc]
  rw [hahead]
end

end Lists
