import Mathlib
/-!
# Residue — how a 32-bit draw falls into the classes of a remainder

Taking a draw modulo `k` is the usual way to pick one of `k` things.  `ncard_mod` counts the draws that pick a given one:
they are as many as for any other, up to one.
-/
namespace Residue

/-- The numbers below `n` that leave the remainder `j`. -/
theorem count_mod (n : Nat) {k j : Nat} (hj : j < k) :
    n.count (fun x => x % k = j) = n / k + if j < n % k then 1 else 0 := by
  have hcount := Nat.count_modEq_card n (Nat.zero_lt_of_lt hj) j
  simp only [Nat.ModEq, Nat.mod_eq_of_lt hj] at hcount
  exact hcount

theorem ceilDiv_of_mod_pos {n k : Nat} (hk : 0 < k) (h : 0 < n % k) : n ⌈/⌉ k = n / k + 1 := by
  have hlt := Nat.mod_lt n hk
  have hsum : n + k - 1 = n % k - 1 + k * (n / k + 1) := by
    have hdiv := Nat.div_add_mod n k
    rw [Nat.mul_add]
    omega
  rw [Nat.ceilDiv_eq_add_pred_div, hsum, Nat.add_mul_div_left _ _ hk, Nat.div_eq_of_lt (by omega), Nat.zero_add]

/-- The 32-bit values are the numbers below `2 ^ 32`. -/
theorem ncard_uint32 (p : Nat → Prop) [DecidablePred p] : {r : UInt32 | p r.toNat}.ncard = (2 ^ 32).count p := by
  have himage : UInt32.toNat '' {r : UInt32 | p r.toNat} = {n ∈ Finset.range (2 ^ 32) | p n} := by
    ext n
    constructor
    · rintro ⟨r, hr, rfl⟩
      exact Finset.mem_coe.2 (Finset.mem_filter.2 ⟨Finset.mem_range.2 r.toNat_lt, hr⟩)
    · intro hn
      obtain ⟨hlt, hp⟩ := Finset.mem_filter.1 (Finset.mem_coe.1 hn)
      have hval : (UInt32.ofNat n).toNat = n := by
        rw [UInt32.toNat_ofNat', Nat.mod_eq_of_lt (Finset.mem_range.1 hlt)]
      exact ⟨UInt32.ofNat n, by simpa [hval] using hp, hval⟩
  rw [Nat.count_eq_card_filter_range, ← Set.ncard_coe_finset, ← himage,
    Set.ncard_image_of_injective _ (fun _ _ h => UInt32.toNat_inj.1 h)]

/-- **The draws that leave a given remainder are `2 ^ 32 / k`, rounded down or up.** -/
theorem ncard_mod {k j : Nat} (hj : j < k) :
    {r : UInt32 | r.toNat % k = j}.ncard = 2 ^ 32 / k ∨ {r : UInt32 | r.toNat % k = j}.ncard = 2 ^ 32 ⌈/⌉ k := by
  rw [ncard_uint32 (fun n => n % k = j), count_mod (2 ^ 32) hj]
  by_cases hlt : j < 2 ^ 32 % k
  · right
    rw [if_pos hlt, ceilDiv_of_mod_pos (Nat.zero_lt_of_lt hj) (Nat.zero_lt_of_lt hlt)]
  · left
    rw [if_neg hlt, Nat.add_zero]

end Residue
