import Mathlib
/-!
# Occupancy — players in bins

How many ways of throwing players into bins leave each alone (`card_injective`), and how many players are alone over
all ways (`sum_card_alone`); and both as the share and the mean they are for throws that are all as likely.
-/
namespace Occupancy

variable {α β : Type} [Fintype α] [DecidableEq α] [DecidableEq β]

/-- The players that share their bin with nobody. -/
def alone (f : α → β) : Finset α := Finset.univ.filter (fun i => ∀ j, f j = f i → j = i)

theorem mem_alone {f : α → β} {i : α} : i ∈ alone f ↔ ∀ j, f j = f i → j = i := by simp [alone]

variable [Fintype β]

theorem card_injective :
    (Finset.univ.filter (fun f : α → β => Function.Injective f)).card
      = (Fintype.card β).descFactorial (Fintype.card α) := by
  rw [← Fintype.card_embedding_eq, ← Fintype.card_subtype]
  exact Fintype.card_congr (Equiv.subtypeInjectiveEquivEmbedding α β)

/-- A player is alone in whichever bin it is in, the others being anywhere else. -/
theorem card_alone_at (i : α) :
    (Finset.univ.filter (fun f : α → β => i ∈ alone f)).card
      = Fintype.card β * (Fintype.card β - 1) ^ (Fintype.card α - 1) := by
  have hothers : ∀ b : β, (Finset.univ.filter (fun g : {j // j ≠ i} → β => ∀ j, g j ≠ b)).card
      = (Fintype.card β - 1) ^ (Fintype.card α - 1) := by
    intro b
    have hpi : Finset.univ.filter (fun g : {j // j ≠ i} → β => ∀ j, g j ≠ b)
        = Fintype.piFinset (fun _ => Finset.univ.erase b) := by
      ext g
      simp
    have hcard : Fintype.card {j // j ≠ i} = Fintype.card α - 1 := by
      rw [Fintype.card_subtype_compl, Fintype.card_subtype_eq]
    rw [hpi, Fintype.card_piFinset, Finset.prod_const, Finset.card_erase_of_mem (Finset.mem_univ b), Finset.card_univ,
      Finset.card_univ, hcard]
  have hsplit : (Finset.univ.filter (fun f : α → β => i ∈ alone f)).card
      = (Finset.univ.filter (fun p : β × ({j // j ≠ i} → β) => ∀ j, p.2 j ≠ p.1)).card := by
    refine Finset.card_equiv (Equiv.funSplitAt i β) ?_
    intro f
    simp only [Finset.mem_filter, Finset.mem_univ, true_and, mem_alone, Equiv.funSplitAt_apply]
    constructor
    · rintro h ⟨j, hj⟩ hij
      exact hj (h j hij)
    · intro h j hij
      by_contra hj
      exact h ⟨j, hj⟩ hij
  rw [hsplit, Finset.card_filter, Fintype.sum_prod_type]
  simp only [← Finset.card_filter, hothers, Finset.sum_const, Finset.card_univ, smul_eq_mul]

theorem sum_card_alone :
    ∑ f : α → β, (alone f).card
      = Fintype.card α * (Fintype.card β * (Fintype.card β - 1) ^ (Fintype.card α - 1)) := by
  calc ∑ f : α → β, (alone f).card
    _ = ∑ f : α → β, ∑ i : α, if i ∈ alone f then 1 else 0 := by
        refine Finset.sum_congr rfl (fun f _ => ?_)
        rw [← Finset.card_filter, Finset.filter_univ_mem]
    _ = ∑ i : α, ∑ f : α → β, if i ∈ alone f then 1 else 0 := Finset.sum_comm
    _ = ∑ _i : α, Fintype.card β * (Fintype.card β - 1) ^ (Fintype.card α - 1) := by
        refine Finset.sum_congr rfl (fun i _ => ?_)
        rw [← Finset.card_filter, card_alone_at]
    _ = _ := by rw [Finset.sum_const, Finset.card_univ, smul_eq_mul]

section Share

variable {K : Type} [Field K] [CharZero K]

theorem descFactorial_div_pow (m : ℕ) : ∀ n : ℕ, (0 < n → 0 < m) →
    (m.descFactorial n : K) / (m : K) ^ n = ∏ i ∈ Finset.range n, (1 - (i : K) / m)
  | 0, _ => by simp
  | n + 1, hm => by
    have hne : (m : K) ≠ 0 := Nat.cast_ne_zero.2 (Nat.pos_iff_ne_zero.1 (hm (Nat.succ_pos n)))
    have ih := descFactorial_div_pow m n (fun _ => hm (Nat.succ_pos n))
    rw [Finset.prod_range_succ, ← ih, Nat.descFactorial_succ, Nat.cast_mul]
    by_cases hle : n ≤ m
    · rw [Nat.cast_sub hle, one_sub_div hne, div_mul_div_comm, pow_succ, mul_comm ((m : K) - n)]
    · -- there are more players than bins, and no way at all
      have hzero : m.descFactorial n = 0 := Nat.descFactorial_eq_zero_iff_lt.2 (by omega)
      simp [hzero]

variable (hbins : 0 < Fintype.card α → 0 < Fintype.card β)
include hbins

/-- **The share of the ways that leave every player alone.** -/
theorem injective_share :
    ((Finset.univ.filter (fun f : α → β => Function.Injective f)).card : K)
        / (Fintype.card β : K) ^ Fintype.card α
      = ∏ i ∈ Finset.range (Fintype.card α), (1 - (i : K) / Fintype.card β) := by
  rw [card_injective, descFactorial_div_pow _ _ hbins]

/-- **The share of those in which two players meet.** -/
theorem collision_share :
    ((Finset.univ.filter (fun f : α → β => ¬ Function.Injective f)).card : K)
        / (Fintype.card β : K) ^ Fintype.card α
      = 1 - ∏ i ∈ Finset.range (Fintype.card α), (1 - (i : K) / Fintype.card β) := by
  have hall := Finset.card_filter_add_card_filter_not (s := Finset.univ) (fun f : α → β => Function.Injective f)
  have hne : (Fintype.card β : K) ^ Fintype.card α ≠ 0 := by
    rcases Nat.eq_zero_or_pos (Fintype.card α) with hzero | hpos
    · rw [hzero, pow_zero]
      exact one_ne_zero
    · exact pow_ne_zero _ (Nat.cast_ne_zero.2 (Nat.pos_iff_ne_zero.1 (hbins hpos)))
  rw [← injective_share hbins, eq_sub_iff_add_eq, ← add_div, ← Nat.cast_add, Nat.add_comm, hall, Finset.card_univ,
    Fintype.card_fun, Nat.cast_pow, div_self hne]

/-- **How many players are alone on average.** -/
theorem alone_mean :
    ((∑ f : α → β, (alone f).card : ℕ) : K) / (Fintype.card β : K) ^ Fintype.card α
      = Fintype.card α * (1 - 1 / (Fintype.card β : K)) ^ (Fintype.card α - 1) := by
  rw [sum_card_alone]
  cases hplayers : Fintype.card α with
  | zero => simp
  | succ n =>
    have hpos : 1 ≤ Fintype.card β := hbins (by omega)
    have hne : (Fintype.card β : K) ≠ 0 := Nat.cast_ne_zero.2 (by omega)
    rw [Nat.add_sub_cancel, Nat.cast_mul, Nat.cast_mul, Nat.cast_pow, Nat.cast_sub hpos, Nat.cast_one, one_sub_div hne,
      div_pow, pow_succ]
    field_simp

end Share

end Occupancy
