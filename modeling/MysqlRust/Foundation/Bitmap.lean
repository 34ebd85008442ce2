import Mathlib.Data.Nat.Bitwise
import Mathlib.Tactic.IntervalCases

/-! # Sets of numbers as bytes

The number `n` is bit `n % 8` of byte `n / 8`. -/
namespace Bitmap

open List

def empty (length : Nat) : List UInt8 := List.replicate length 0

def insert (bitmap : List UInt8) (n : Nat) : List UInt8 :=
  bitmap.modify (n / 8) fun byte => byte ||| (1 <<< UInt8.ofNat (n % 8))

def contains (bitmap : List UInt8) (n : Nat) : Bool :=
  match bitmap[n / 8]? with
  | some byte => byte.toNat.testBit (n % 8)
  | none => false

@[simp] theorem length_insert (bitmap : List UInt8) (n : Nat) :
    (insert bitmap n).length = bitmap.length := by
  simp [insert]

theorem contains_empty (length n : Nat) : contains (empty length) n = false := by
  unfold contains
  split
  · rename_i byte hbyte
    have hzero := eq_of_mem_replicate (mem_of_getElem? hbyte)
    simp [hzero]
  · rfl

theorem toNat_bit {k : Nat} (hk : k < 8) : ((1 : UInt8) <<< UInt8.ofNat k).toNat = 2 ^ k := by
  interval_cases k <;> rfl

variable {bitmap : List UInt8} {α : Type}

theorem contains_insert {n : Nat} (hn : n / 8 < bitmap.length) (k : Nat) :
    contains (insert bitmap n) k = (contains bitmap k || decide (n = k)) := by
  have hbit : n % 8 < 8 := Nat.mod_lt n (by decide)
  unfold contains insert
  rw [getElem?_modify]
  by_cases hbyte : n / 8 = k / 8
  · have hsame : decide (n % 8 = k % 8) = decide (n = k) := by
      refine decide_eq_decide.mpr ⟨fun h => ?_, fun h => by rw [h]⟩
      omega
    rw [← hbyte, getElem?_eq_getElem hn]
    simp only [Option.map_eq_map, Option.map_some, if_true, UInt8.toNat_or, toNat_bit hbit,
      Nat.testBit_or, Nat.testBit_two_pow, hsame]
  · have hne : n ≠ k := fun heq => hbyte (by rw [heq])
    simp only [if_neg hbyte, hne, decide_false, Bool.or_false]
    cases bitmap[k / 8]? <;> rfl

theorem length_foldl (p : α → Bool) (f : α → Nat) (l : List α) (bitmap : List UInt8) :
    (l.foldl (fun bitmap a => if p a then insert bitmap (f a) else bitmap) bitmap).length =
      bitmap.length := by
  induction l generalizing bitmap with
  | nil => rfl
  | cons a l ih =>
    rw [foldl_cons, ih]
    split
    · exact length_insert bitmap (f a)
    · rfl

theorem contains_foldl (p : α → Bool) (f : α → Nat) {l : List α}
    (h : ∀ a ∈ l, f a / 8 < bitmap.length) (k : Nat) :
    contains (l.foldl (fun bitmap a => if p a then insert bitmap (f a) else bitmap) bitmap) k =
      (contains bitmap k || l.any fun a => p a && decide (f a = k)) := by
  induction l generalizing bitmap with
  | nil => simp
  | cons a l ih =>
    have hhead := h a mem_cons_self
    have htail := fun b hb => h b (mem_cons_of_mem a hb)
    rw [foldl_cons, any_cons]
    by_cases ha : p a
    · rw [if_pos ha, ih (by simpa using htail), contains_insert hhead, ha, Bool.true_and,
        Bool.or_assoc]
    · rw [if_neg ha, ih htail, Bool.eq_false_iff.mpr ha, Bool.false_and, Bool.false_or]

section Positions
variable {α : Type}

def positions (p : α → Bool) (offset : Nat) (l : List α) : List UInt8 :=
  l.zipIdx.foldl (fun bitmap a => if p a.1 then insert bitmap (a.2 + offset) else bitmap)
    (empty ((l.length + offset + 7) / 8))

theorem length_positions (p : α → Bool) (offset : Nat) (l : List α) :
    (positions p offset l).length = (l.length + offset + 7) / 8 := by
  rw [positions, length_foldl (fun a : α × Nat => p a.1) (fun a => a.2 + offset), empty,
    length_replicate]

theorem contains_positions (p : α → Bool) (offset : Nat) (l : List α) (i : Nat) :
    contains (positions p offset l) (i + offset) = l[i]?.any p := by
  have hin : ∀ a ∈ l.zipIdx, (a.2 + offset) / 8 < (empty ((l.length + offset + 7) / 8)).length := by
    intro a ha
    have hlt := snd_lt_of_mem_zipIdx ha
    simp only [empty, length_replicate]
    omega
  rw [positions, contains_foldl (fun a : α × Nat => p a.1) (fun a => a.2 + offset) hin,
    contains_empty, Bool.false_or, Bool.eq_iff_iff]
  simp only [any_eq_true, Bool.and_eq_true, decide_eq_true_eq, Prod.exists,
    mem_zipIdx_iff_getElem?, Nat.add_right_cancel_iff, Option.any_eq_true]
  constructor
  · rintro ⟨a, j, hget, hp, rfl⟩
    exact ⟨a, hget, hp⟩
  · rintro ⟨a, hget, hp⟩
    exact ⟨a, i, hget, hp, rfl⟩

end Positions

end Bitmap
