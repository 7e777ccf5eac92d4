import Mathlib
/-!
# ByteBits — single bits of a byte

`1 <<< k` selects bit `k` of a byte.  A masked byte is non-zero exactly when the number it stands for has that bit, and
shifting the mask on moves it to the next bit, or to zero past the eighth.
-/
namespace ByteBits

def mask (k : UInt8) : UInt8 := 1 <<< k

theorem toNat_mask {k : UInt8} (hk : k.toNat < 8) : (mask k).toNat = 2 ^ k.toNat := by
  have hone : (1 : UInt8).toNat = 1 := rfl
  have hlt : 2 ^ k.toNat < 2 ^ 8 := Nat.pow_lt_pow_right (by omega) hk
  rw [mask, UInt8.toNat_shiftLeft, Nat.mod_eq_of_lt hk, Nat.shiftLeft_eq, hone, Nat.one_mul, Nat.mod_eq_of_lt hlt]

theorem and_mask_ne_zero (x : UInt8) {k : UInt8} (hk : k.toNat < 8) :
    (x &&& mask k != 0) = x.toNat.testBit k.toNat := by
  have hiff : x &&& mask k = 0 ↔ x.toNat.testBit k.toNat = false := by
    have hzero : (0 : UInt8).toNat = 0 := rfl
    rw [← UInt8.toNat_inj, UInt8.toNat_and, toNat_mask hk, Nat.and_two_pow, hzero]
    cases x.toNat.testBit k.toNat <;> simp
  cases hb : x.toNat.testBit k.toNat with
  | false => simp [hiff.2 hb]
  | true =>
    have hne : x &&& mask k ≠ 0 := by
      intro h
      rw [hiff.1 h] at hb
      cases hb
    simpa using hne

theorem or_mask_and_mask (x : UInt8) {k l : UInt8} (hk : k.toNat < 8) (hl : l.toNat < 8) :
    ((x ||| mask k) &&& mask l != 0) = (decide (l = k) || (x &&& mask l != 0)) := by
  rw [and_mask_ne_zero _ hl, and_mask_ne_zero _ hl, UInt8.toNat_or, Nat.testBit_or, toNat_mask hk,
    Nat.testBit_two_pow, Bool.or_comm]
  congr 2
  rw [UInt8.toNat_inj]
  exact propext eq_comm

theorem mask_shiftLeft_one {k : UInt8} (hk : k.toNat + 1 < 8) : mask k <<< 1 = mask (k + 1) := by
  have hone : (1 : UInt8).toNat = 1 := rfl
  have hk1 : (k + 1).toNat = k.toNat + 1 := by
    rw [UInt8.toNat_add, hone]
    omega
  have hlt : 2 ^ k.toNat * 2 < 2 ^ 8 := by
    rw [← Nat.pow_succ]
    exact Nat.pow_lt_pow_right (by omega) hk
  rw [← UInt8.toNat_inj, UInt8.toNat_shiftLeft, toNat_mask (by omega), toNat_mask (by omega), hk1, Nat.shiftLeft_eq, hone]
  rw [Nat.mod_eq_of_lt (by omega : 1 < 8), Nat.pow_one, Nat.mod_eq_of_lt hlt, Nat.pow_succ]

theorem mask_ne_zero {k : UInt8} (hk : k.toNat < 8) : mask k ≠ 0 := by
  intro h
  have hz := toNat_mask hk
  rw [h] at hz
  exact absurd hz.symm (Nat.pow_pos (by omega)).ne'

end ByteBits
