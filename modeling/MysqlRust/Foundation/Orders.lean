import Mathlib.Data.List.Basic
import Mathlib.Data.Nat.Basic
import Mathlib.Order.Compare
import Mathlib.Tactic.IntervalCases
import Mathlib.Order.Defs.LinearOrder

/-! # Comparisons

A comparison that follows the order of what values stand for is a total order on them.
Comparing sequences item by item is comparing their codes byte by byte.
-/
namespace Orders

open List
variable {α β : Type}

/-- A comparison that is a total order on a set, where equal items are the same. -/
structure TotalOrderOn (cmp : α → α → Ordering) (S : Set α) : Prop where
  eq_iff : ∀ a ∈ S, ∀ b ∈ S, cmp a b = .eq ↔ a = b
  swap : ∀ a ∈ S, ∀ b ∈ S, cmp b a = (cmp a b).swap
  trans : ∀ a ∈ S, ∀ b ∈ S, ∀ c ∈ S, cmp a b = .lt → cmp b c = .lt → cmp a c = .lt

variable {cmp : α → α → Ordering}

theorem TotalOrderOn.of_names {S : Set α} [Ord β] [Std.TransOrd β] [Std.LawfulEqOrd β]
    {item : β → α} (h : ∀ x y, cmp (item x) (item y) = compare x y)
    (hS : ∀ a ∈ S, ∃ x, item x = a) :
    TotalOrderOn cmp S where
  eq_iff a ha b hb := by
    obtain ⟨x, rfl⟩ := hS a ha
    obtain ⟨y, rfl⟩ := hS b hb
    rw [h x y, Std.LawfulEqOrd.compare_eq_iff_eq]
    constructor
    · exact congrArg item
    · intro heq
      have hself := h x y
      rw [← heq, h x x, Std.ReflOrd.compare_self] at hself
      exact Std.LawfulEqOrd.eq_of_compare hself.symm
  swap a ha b hb := by
    obtain ⟨x, rfl⟩ := hS a ha
    obtain ⟨y, rfl⟩ := hS b hb
    rw [h x y, h y x]
    exact Std.OrientedOrd.eq_swap
  trans a ha b hb c hc hab hbc := by
    obtain ⟨x, rfl⟩ := hS a ha
    obtain ⟨y, rfl⟩ := hS b hb
    obtain ⟨z, rfl⟩ := hS c hc
    rw [h] at hab hbc ⊢
    exact Std.TransCmp.lt_trans hab hbc

def zipCompare (cmp : α → α → Ordering) : List α → List α → Ordering
  | a :: as, b :: bs => (cmp a b).then (zipCompare cmp as bs)
  | _, _ => .eq

theorem TotalOrderOn.zipCompare {sets : List (Set α)} (h : ∀ S ∈ sets, TotalOrderOn cmp S) :
    TotalOrderOn (zipCompare cmp) {l | List.Forall₂ (fun S a => a ∈ S) sets l} := by
  induction sets with
  | nil =>
    constructor
    · rintro _ (_ | _) _ (_ | _)
      exact iff_of_true rfl rfl
    · rintro _ (_ | _) _ (_ | _)
      rfl
    · rintro _ (_ | _) _ (_ | _) _ - hlt
      cases hlt
  | cons S sets ih =>
    have hS := h S mem_cons_self
    have hrest := ih fun T hT => h T (mem_cons_of_mem S hT)
    constructor
    · rintro _ (_ | ⟨ha, has⟩) _ (_ | ⟨hb, hbs⟩)
      rw [Orders.zipCompare, Ordering.then_eq_eq, hS.eq_iff _ ha _ hb, hrest.eq_iff _ has _ hbs,
        List.cons.injEq]
    · rintro _ (_ | ⟨ha, has⟩) _ (_ | ⟨hb, hbs⟩)
      rw [Orders.zipCompare, Orders.zipCompare, hS.swap _ ha _ hb, hrest.swap _ has _ hbs,
        Ordering.swap_then]
    · rintro _ (_ | ⟨ha, has⟩) _ (_ | ⟨hb, hbs⟩) _ (_ | ⟨hc, hcs⟩) hab hbc
      rw [Orders.zipCompare, Ordering.then_eq_lt] at hab hbc ⊢
      rcases hab with hab | ⟨hab, hab'⟩
      · rcases hbc with hbc | ⟨hbc, -⟩
        · exact .inl (hS.trans _ ha _ hb _ hc hab hbc)
        · rw [← (hS.eq_iff _ hb _ hc).mp hbc]
          exact .inl hab
      · rw [(hS.eq_iff _ ha _ hb).mp hab]
        rcases hbc with hbc | ⟨hbc, hbc'⟩
        · exact .inl hbc
        · exact .inr ⟨hbc, hrest.trans _ has _ hbs _ hcs hab' hbc'⟩

/-- The least of a list, or the greatest: nothing in the list compares to it as `wanted`. -/
def Best (cmp : α → α → Ordering) (wanted : Ordering) (l : List α) : Option α → Prop
  | none => l = []
  | some a => a ∈ l ∧ ∀ b ∈ l, cmp b a ≠ wanted

variable {S : Set α} {wanted : Ordering}

theorem TotalOrderOn.trans_of_ne (h : TotalOrderOn cmp S) {a b c : α} (ha : a ∈ S) (hb : b ∈ S)
    (hc : c ∈ S) (hwanted : wanted ≠ .eq) (hab : cmp a b = wanted)
    (hbc : cmp b c = wanted) : cmp a c = wanted := by
  cases wanted with
  | lt => exact h.trans a ha b hb c hc hab hbc
  | eq => exact absurd rfl hwanted
  | gt =>
    have hgt := h.trans c hc b hb a ha (by rw [h.swap b hb c hc, hbc]; rfl)
      (by rw [h.swap a ha b hb, hab]; rfl)
    rw [h.swap c hc a ha, hgt]
    rfl

theorem Best.first (h : TotalOrderOn cmp S) (hwanted : wanted ≠ .eq) {a : α}
    (ha : a ∈ S) : Best cmp wanted [a] (some a) := by
  refine ⟨mem_singleton_self a, fun b hb => ?_⟩
  rw [mem_singleton.mp hb, (h.eq_iff a ha a ha).mpr rfl]
  exact hwanted.symm

theorem Best.next (h : TotalOrderOn cmp S) (hwanted : wanted ≠ .eq)
    {l : List α} (hl : ∀ b ∈ l, b ∈ S) {a c : α} (ha : a ∈ S) (hbest : Best cmp wanted l (some c)) :
    Best cmp wanted (l ++ [a]) (some (if cmp a c = wanted then a else c)) := by
  obtain ⟨hc, hle⟩ := hbest
  split_ifs with hac
  · refine ⟨mem_concat_self, fun b hb hba => ?_⟩
    rcases mem_append.mp hb with hb | hb
    · exact hle b hb (h.trans_of_ne (hl b hb) ha (hl c hc) hwanted hba hac)
    · exact (first h hwanted ha).2 b hb hba
  · refine ⟨mem_append_left _ hc, fun b hb => ?_⟩
    rcases mem_append.mp hb with hb | hb
    · exact hle b hb
    · rwa [mem_singleton.mp hb]

variable [Ord α] [Ord β]

theorem compare_congr [Std.OrientedOrd α] [Std.OrientedOrd β] {a b : α} {c d : β}
    (hlt : compare a b = .lt ↔ compare c d = .lt) (hgt : compare b a = .lt ↔ compare d c = .lt) :
    compare a b = compare c d := by
  rw [Std.OrientedOrd.eq_swap (a := b), Std.OrientedOrd.eq_swap (a := d)] at hgt
  cases hab : compare a b <;> cases hcd : compare c d <;> simp_all

theorem compare_div_mod (k m n : Nat) :
    compare m n = (compare (m / k) (n / k)).then (compare (m % k) (n % k)) := by
  have hm := Nat.div_add_mod m k
  have hn := Nat.div_add_mod n k
  rcases Nat.lt_trichotomy (m / k) (n / k) with hlt | heq | hgt
  · have hmn : m < n := Nat.lt_of_div_lt_div hlt
    rw [Nat.compare_eq_lt.mpr hlt, Nat.compare_eq_lt.mpr hmn]
    rfl
  · rw [Nat.compare_eq_eq.mpr heq, Ordering.eq_then]
    rw [heq] at hm
    refine compare_congr ?_ ?_
    · rw [Nat.compare_eq_lt, Nat.compare_eq_lt]
      omega
    · rw [Nat.compare_eq_lt, Nat.compare_eq_lt]
      omega
  · have hmn : n < m := Nat.lt_of_div_lt_div hgt
    rw [Nat.compare_eq_gt.mpr hgt, Nat.compare_eq_gt.mpr hmn]
    rfl

/-- Items are ordered as their codes are, whatever follows the codes. -/
def Ordered (enc : α → List β) : Prop :=
  ∀ a b xs ys, compare (enc a ++ xs) (enc b ++ ys) = (compare a b).then (compare xs ys)

theorem Ordered.flatMap {enc : α → List β} (h : Ordered enc) (hne : ∀ a, enc a ≠ [])
    (as bs : List α) : compare (as.flatMap enc) (bs.flatMap enc) = compare as bs := by
  induction as generalizing bs with
  | nil =>
    cases bs with
    | nil => rfl
    | cons b bs =>
      obtain ⟨x, xs, hx⟩ := exists_cons_of_ne_nil (hne b)
      rw [List.flatMap_cons, hx]
      rfl
  | cons a as ih =>
    cases bs with
    | nil =>
      obtain ⟨x, xs, hx⟩ := exists_cons_of_ne_nil (hne a)
      rw [List.flatMap_cons, hx]
      rfl
    | cons b bs => rw [List.flatMap_cons, List.flatMap_cons, h, ih, List.compare_cons_cons]

theorem compare_toNat (x y : UInt8) : compare x y = compare x.toNat y.toNat := by
  refine compare_congr ?_ ?_
  · rw [Std.compare_eq_lt, Nat.compare_eq_lt, UInt8.lt_iff_toNat_lt]
  · rw [Std.compare_eq_lt, Nat.compare_eq_lt, UInt8.lt_iff_toNat_lt]

theorem compare_ofNat_add {a b c : Nat} (ha : a + c < 256) (hb : b + c < 256) :
    compare (UInt8.ofNat (a + c)) (UInt8.ofNat (b + c)) = compare a b := by
  rw [compare_toNat, UInt8.toNat_ofNat_of_lt' ha, UInt8.toNat_ofNat_of_lt' hb]
  refine compare_congr ?_ ?_
  · rw [Nat.compare_eq_lt, Nat.compare_eq_lt]
    omega
  · rw [Nat.compare_eq_lt, Nat.compare_eq_lt]
    omega

theorem compare_ofNat_of_lt {a b : Nat} (hab : a < b) (hb : b < 256) (xs ys : List UInt8) :
    compare (UInt8.ofNat a :: xs) (UInt8.ofNat b :: ys) = .lt := by
  rw [List.compare_cons_cons, compare_toNat, UInt8.toNat_ofNat_of_lt' (Nat.lt_trans hab hb),
    UInt8.toNat_ofNat_of_lt' hb, Nat.compare_eq_lt.mpr hab]
  rfl

def positional (base offset : Nat) : Nat → Nat → List UInt8
  | 0, _ => []
  | k + 1, n => positional base offset k (n / base) ++ [UInt8.ofNat (n % base + offset)]

theorem compare_positional {base offset : Nat} (hbase : 0 < base) (hbyte : base + offset ≤ 256)
    (k m n : Nat) (xs ys : List UInt8) :
    compare (positional base offset k m ++ xs) (positional base offset k n ++ ys) =
      (compare (m % base ^ k) (n % base ^ k)).then (compare xs ys) := by
  induction k generalizing m n xs ys with
  | zero => simp [positional, Nat.mod_one]
  | succ k ih =>
    have hdigit : ∀ v, v % base + offset < 256 := by
      intro v
      have hlt := Nat.mod_lt v hbase
      omega
    have hdiv : ∀ v, v % base ^ (k + 1) / base = v / base % base ^ k := by
      intro v
      rw [Nat.pow_succ, Nat.mul_comm, Nat.mod_mul_right_div_self]
    have hmod : ∀ v, v % base ^ (k + 1) % base = v % base := by
      intro v
      exact Nat.mod_mod_of_dvd v (Dvd.intro_left (base ^ k) rfl)
    rw [positional, positional, List.append_assoc, List.append_assoc, ih, List.singleton_append,
      List.singleton_append, List.compare_cons_cons, compare_ofNat_add (hdigit m) (hdigit n),
      compare_div_mod base (m % base ^ (k + 1)), hdiv, hdiv, hmod, hmod, Ordering.then_assoc]

section Characters
variable {k l n : Nat}

theorem compare_char (c d : Char) : compare c d = compare c.toNat d.toNat := by
  refine compare_congr ?_ ?_
  · rw [Nat.compare_eq_lt]
    exact compareOfLessAndEq_eq_lt
  · rw [Nat.compare_eq_lt]
    exact compareOfLessAndEq_eq_lt

def leastPoint : Nat → Nat
  | 0 => 0
  | 1 => 128
  | 2 => 2048
  | 3 => 65536
  | _ => 0x110000

def leadOffset : Nat → Nat
  | 0 => 0
  | 1 => 192
  | 2 => 224
  | _ => 240

theorem utf8EncodeChar_eq (c : Char) : ∃ k ≤ 3, leastPoint k ≤ c.toNat ∧ c.toNat < leastPoint (k + 1) ∧
    String.utf8EncodeChar c =
      UInt8.ofNat (c.toNat / 64 ^ k + leadOffset k) :: positional 64 128 k c.toNat := by
  have hvalid : c.toNat < 0x110000 := by
    rcases c.valid with h | h
    · exact Nat.lt_trans h (by decide)
    · exact h.2
  have hval : c.val.toNat = c.toNat := rfl
  unfold String.utf8EncodeChar
  dsimp only
  rw [hval]
  generalize c.toNat = v at hvalid
  have hthird : v / 64 / 64 = v / 4096 := Nat.div_div_eq_div_mul v 64 64
  split_ifs with h1 h2 h3
  · refine ⟨0, by decide, Nat.zero_le v, Nat.lt_succ_of_le h1, ?_⟩
    simp [leadOffset, positional]
  · refine ⟨1, by decide, Nat.lt_of_not_le h1, Nat.lt_succ_of_le h2, ?_⟩
    simp only [leadOffset, positional, Nat.pow_one, nil_append]
    rw [Nat.mod_eq_of_lt (by omega : v / 64 < 32)]
  · refine ⟨2, by decide, Nat.lt_of_not_le h2, Nat.lt_succ_of_le h3, ?_⟩
    simp only [leadOffset, positional, nil_append, cons_append, Nat.reducePow]
    rw [Nat.mod_eq_of_lt (by omega : v / 4096 < 16)]
  · refine ⟨3, by decide, Nat.lt_of_not_le h3, hvalid, ?_⟩
    simp only [leadOffset, positional, nil_append, cons_append, Nat.reducePow]
    rw [Nat.mod_eq_of_lt (by omega : v / 262144 < 8), hthird]

theorem lead_lt {m : Nat} (hkl : k < l) (hl : l ≤ 3) (hm : m < leastPoint (k + 1))
    (hn : leastPoint l ≤ n) : m / 64 ^ k + leadOffset k < n / 64 ^ l + leadOffset l := by
  interval_cases l <;> interval_cases k <;> simp only [leastPoint, leadOffset, Nat.reducePow] at * <;> omega

theorem lead_byte (hk : k ≤ 3) (hn : n < leastPoint (k + 1)) : n / 64 ^ k + leadOffset k < 256 := by
  interval_cases k <;> simp only [leastPoint, leadOffset, Nat.reducePow] at * <;> omega

theorem leastPoint_le (h : k < l) (hl : l ≤ 3) : leastPoint (k + 1) ≤ leastPoint l := by
  interval_cases l <;> interval_cases k <;> decide

theorem utf8_lt {c d : Char} (hkl : k < l) (hl : l ≤ 3) (hc : c.toNat < leastPoint (k + 1))
    (hd : leastPoint l ≤ d.toNat) : compare c d = .lt := by
  rw [compare_char, Nat.compare_eq_lt]
  exact Nat.lt_of_lt_of_le (Nat.lt_of_lt_of_le hc (leastPoint_le hkl hl)) hd

theorem utf8EncodeChar_ordered : Ordered String.utf8EncodeChar := by
  intro c d xs ys
  obtain ⟨k, hk, hleast, hc, hcode⟩ := utf8EncodeChar_eq c
  obtain ⟨l, hl, hleast', hd, hdcode⟩ := utf8EncodeChar_eq d
  rw [hcode, hdcode, cons_append, cons_append]
  rcases Nat.lt_trichotomy k l with hkl | rfl | hkl
  · rw [compare_ofNat_of_lt (lead_lt hkl hl hc hleast') (lead_byte hl hd), utf8_lt hkl hl hc hleast']
    rfl
  · rw [List.compare_cons_cons, compare_ofNat_add (lead_byte hk hc) (lead_byte hl hd),
      compare_positional (by decide) (by decide), ← Ordering.then_assoc, ← compare_div_mod,
      compare_char]
  · rw [Std.OrientedOrd.eq_swap, compare_ofNat_of_lt (lead_lt hkl hk hd hleast) (lead_byte hk hc),
      Std.OrientedOrd.eq_swap (a := c), utf8_lt hkl hk hd hleast]
    rfl

end Characters

end Orders
