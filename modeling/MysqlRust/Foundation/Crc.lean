import Mathlib.Data.List.Basic

/-! # Bitwise cyclic redundancy checks

The reflected register of a checksum of any width. When the top bit of the polynomial is set,
feeding bytes is injective in the register. Bits that have not reached the low end only move
down, so a block that fits into the register enters as one word.
-/
namespace Crc

open List
variable {w : Nat} (poly : BitVec w)

def shift (c : BitVec w) : BitVec w :=
  if c &&& 1#w = 1#w then (c >>> 1) ^^^ poly else c >>> 1

def shifts : Nat → BitVec w → BitVec w
  | 0, c => c
  | n + 1, c => shifts n (shift poly c)

/-- One byte enters at the low end of the register, followed by eight shifts. -/
def feed (c : BitVec w) (b : UInt8) : BitVec w := shifts poly 8 (c ^^^ b.toBitVec.setWidth w)

def run (c : BitVec w) (bs : List UInt8) : BitVec w := bs.foldl (feed poly) c

theorem low_bit (hw : 0 < w) (c : BitVec w) : (c &&& 1#w = 1#w) ↔ c.getLsbD 0 = true := by
  rw [BitVec.and_one_eq_setWidth_ofBool_getLsbD]
  constructor
  · intro h
    have h0 := congrArg (BitVec.getLsbD · 0) h
    simpa [hw] using h0
  · intro h
    rw [h]
    apply BitVec.eq_of_getLsbD_eq
    intro i hi
    rcases i with _ | i <;> simp [BitVec.getLsbD_one, hw]

variable {poly}

theorem width_pos (hp : poly.msb = true) : 0 < w := by
  rcases Nat.eq_zero_or_pos w with rfl | h
  · simp [BitVec.eq_nil poly] at hp
  · exact h

theorem shift_msb (hp : poly.msb = true) (c : BitVec w) : (shift poly c).msb = c.getLsbD 0 := by
  have hw := width_pos hp
  unfold shift
  cases hc : c.getLsbD 0 with
  | true => rw [if_pos ((low_bit hw c).mpr hc)]; simp [BitVec.msb_ushiftRight, hp]
  | false =>
    have hn : ¬c &&& 1#w = 1#w := by rw [low_bit hw c, hc]; simp
    rw [if_neg hn]
    simp [BitVec.msb_ushiftRight]

theorem shift_injective (hp : poly.msb = true) : Function.Injective (shift poly) := by
  have hw := width_pos hp
  intro a b h
  have hlow : a.getLsbD 0 = b.getLsbD 0 := by rw [← shift_msb hp, ← shift_msb hp, h]
  have hhigh : a >>> 1 = b >>> 1 := by
    unfold shift at h
    simp only [low_bit hw, hlow] at h
    split at h
    · exact (BitVec.xor_left_inj _).mp h
    · exact h
  apply BitVec.eq_of_getLsbD_eq
  intro i hi
  cases i with
  | zero => exact hlow
  | succ i =>
    have hbit := congrArg (BitVec.getLsbD · i) hhigh
    simpa [BitVec.getLsbD_ushiftRight, Nat.add_comm] using hbit

theorem shifts_injective (hp : poly.msb = true) (n : Nat) : Function.Injective (shifts poly n) := by
  induction n with
  | zero => exact fun _ _ h => h
  | succ n ih => exact ih.comp (shift_injective hp)

theorem feed_injective (hp : poly.msb = true) (b : UInt8) :
    Function.Injective (fun c => feed poly c b) :=
  fun _ _ h => (BitVec.xor_left_inj _).mp (shifts_injective hp 8 h)

theorem run_append (c : BitVec w) (as bs : List UInt8) :
    run poly c (as ++ bs) = run poly (run poly c as) bs := foldl_append

theorem run_injective (hp : poly.msb = true) (bs : List UInt8) :
    Function.Injective (fun c => run poly c bs) := by
  induction bs with
  | nil => exact fun _ _ h => h
  | cons b bs ih => exact ih.comp (feed_injective hp b)

section Blocks
variable {bs : List UInt8} {n : Nat} {c : BitVec w}

theorem shift_eq (hw : 0 < w) (c : BitVec w) :
    shift poly c = (c >>> 1) ^^^ (if c.getLsbD 0 = true then poly else 0#w) := by
  unfold shift
  simp only [low_bit hw]
  split <;> simp

theorem shift_xor (hw : 0 < w) (a b : BitVec w) :
    shift poly (a ^^^ b) = shift poly a ^^^ shift poly b := by
  simp only [shift_eq hw, BitVec.ushiftRight_xor_distrib, BitVec.getLsbD_xor]
  cases a.getLsbD 0 <;> cases b.getLsbD 0 <;> simp [BitVec.xor_assoc, BitVec.xor_comm poly]

theorem shifts_xor (hw : 0 < w) (n : Nat) (a b : BitVec w) :
    shifts poly n (a ^^^ b) = shifts poly n a ^^^ shifts poly n b := by
  induction n generalizing a b with
  | zero => rfl
  | succ n ih => rw [shifts, shift_xor hw, ih, ← shifts, ← shifts]

theorem shifts_add (m n : Nat) (c : BitVec w) :
    shifts poly (m + n) c = shifts poly n (shifts poly m c) := by
  induction m generalizing c with
  | zero => rw [Nat.zero_add, shifts]
  | succ m ih => rw [Nat.succ_add, shifts, ih, ← shifts]

theorem shift_shiftLeft (hw : 0 < w) (hc : ∀ i, w ≤ i + (n + 1) → c.getLsbD i = false) :
    shift poly (c <<< (n + 1)) = c <<< n := by
  have hlow : (c <<< (n + 1)).getLsbD 0 = false := by simp
  rw [shift_eq hw, hlow, if_neg Bool.false_ne_true, BitVec.xor_zero]
  apply BitVec.eq_of_getLsbD_eq
  intro i hi
  rw [BitVec.getLsbD_ushiftRight, BitVec.getLsbD_shiftLeft, BitVec.getLsbD_shiftLeft]
  rw [Nat.add_comm 1 i]
  by_cases htop : i + 1 < w
  · simp [htop, hi]
  · have hout : n ≤ i → c.getLsbD (i - n) = false := fun hn => hc (i - n) (by omega)
    simpa [htop, hi] using hout

theorem shifts_shiftLeft (hw : 0 < w) (hc : ∀ i, w ≤ i + n → c.getLsbD i = false) :
    shifts poly n (c <<< n) = c := by
  induction n with
  | zero => rw [BitVec.shiftLeft_zero, shifts]
  | succ n ih =>
    rw [shifts, shift_shiftLeft hw hc]
    exact ih fun i hi => hc i (by omega)

def block : List UInt8 → BitVec w
  | [] => 0#w
  | b :: bs => b.toBitVec.setWidth w ^^^ (block bs <<< 8)

theorem block_high {i : Nat} (hi : 8 * bs.length ≤ i) :
    (block bs : BitVec w).getLsbD i = false := by
  induction bs generalizing i with
  | nil => simp [block]
  | cons b bs ih =>
    rw [length_cons] at hi
    have hbyte : b.toBitVec.getLsbD i = false := BitVec.getLsbD_of_ge _ _ (by omega)
    have hrest : (block bs : BitVec w).getLsbD (i - 8) = false := ih (by omega)
    simp [block, hbyte, hrest]

theorem block_injective {as : List UInt8} (hlen : as.length = bs.length) (hw : 8 * as.length ≤ w)
    (h : (block as : BitVec w) = block bs) : as = bs := by
  induction as generalizing bs with
  | nil => exact (length_eq_zero_iff.mp hlen.symm).symm
  | cons a as ih =>
    obtain ⟨b, bs, rfl⟩ := exists_cons_of_length_eq_add_one hlen.symm
    rw [length_cons] at hw
    simp only [length_cons, Nat.add_right_cancel_iff] at hlen
    have hbit : ∀ i, (block (a :: as) : BitVec w).getLsbD i =
        (block (b :: bs) : BitVec w).getLsbD i := by
      intro i
      rw [h]
    have hbyte : a = b := by
      apply UInt8.toBitVec_inj.mp
      apply BitVec.eq_of_getLsbD_eq
      intro i hi
      simpa [block, hi, show i < w by omega] using hbit i
    have hrest : (block as : BitVec w) = block bs := by
      apply BitVec.eq_of_getLsbD_eq
      intro i hi
      by_cases hin : i + 8 < w
      · simpa [block, hin, hbyte, hi, Nat.not_lt.mpr (Nat.le_add_left 8 i)] using hbit (i + 8)
      · rw [block_high (by omega), block_high (by omega)]
    rw [hbyte, ih hlen (by omega) hrest]

theorem run_eq_shifts (hw : 0 < w) (c : BitVec w) (hbs : 8 * bs.length ≤ w) :
    run poly c bs = shifts poly (8 * bs.length) (c ^^^ block bs) := by
  induction bs generalizing c with
  | nil => simp [run, block, shifts]
  | cons b bs ih =>
    rw [length_cons] at hbs
    have hmove : shifts poly 8 (block bs <<< 8) = block bs :=
      shifts_shiftLeft hw fun i hi => block_high (by omega)
    calc run poly c (b :: bs)
        = run poly (feed poly c b) bs := rfl
      _ = shifts poly (8 * bs.length) (feed poly c b ^^^ block bs) := ih _ (by omega)
      _ = shifts poly (8 * bs.length) (shifts poly 8 (c ^^^ block (b :: bs))) := by
        rw [block, ← BitVec.xor_assoc, shifts_xor hw 8, hmove, feed]
      _ = shifts poly (8 * (b :: bs).length) (c ^^^ block (b :: bs)) := by
        rw [← shifts_add, length_cons, Nat.mul_succ, Nat.add_comm 8]

/-- Replacing a block that the register has room for always changes the register at the end. -/
theorem run_block_ne (hp : poly.msb = true) (c : BitVec w) {before old new : List UInt8}
    (hlen : new.length = old.length) (hw : 8 * old.length ≤ w) (hne : new ≠ old)
    (behind : List UInt8) :
    run poly c (before ++ (new ++ behind)) ≠ run poly c (before ++ (old ++ behind)) := by
  intro h
  rw [run_append, run_append, run_append, run_append] at h
  have hrun := run_injective hp behind h
  rw [run_eq_shifts (width_pos hp) _ (hlen ▸ hw), run_eq_shifts (width_pos hp) _ hw, hlen] at hrun
  have hblock := (BitVec.xor_right_inj _).mp (shifts_injective hp _ hrun)
  exact hne (block_injective hlen (hlen ▸ hw) hblock)

end Blocks

end Crc
