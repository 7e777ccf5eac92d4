import Mathlib
/-!
# Counter — consecutive values of a 32-bit counter that wraps

`descending o k` is `o`, `o - 1`, … down for `k` values, modulo `2 ^ 32`.  Whether a value is among them is one
wrapping subtraction (`mem_descending`), wherever the wrap falls.
-/
namespace Counter

def descending : UInt32 → Nat → List UInt32
  | _, 0 => []
  | o, k + 1 => o :: descending (o - 1) k

theorem length_descending : ∀ (o : UInt32) (k : Nat), (descending o k).length = k
  | _, 0 => rfl
  | o, k + 1 => by rw [descending, List.length_cons, length_descending (o - 1) k]

theorem take_descending : ∀ (o : UInt32) (k m : Nat), (descending o k).take m = descending o (min k m)
  | _, 0, m => by rw [Nat.zero_min]; exact List.take_nil
  | _, k + 1, 0 => rfl
  | o, k + 1, m + 1 => by
    rw [descending, List.take_succ_cons, take_descending (o - 1) k m, Nat.succ_min_succ]
    rfl

theorem ofNat_succ (k : Nat) : UInt32.ofNat (k + 1) = UInt32.ofNat k + 1 := UInt32.ofNat_add k 1

theorem toNat_sub (a b : UInt32) : (a - b).toNat = (2 ^ 32 - b.toNat + a.toNat) % 2 ^ 32 := UInt32.toNat_sub a b

theorem toNat_sub_one_sub {o n : UInt32} (h : n ≠ o) : (o - 1 - n).toNat + 1 = (o - n).toNat := by
  have hne : n.toNat ≠ o.toNat := fun e => h (UInt32.toNat_inj.1 e)
  have ho := o.toNat_lt
  have hn := n.toNat_lt
  have h1 : (1 : UInt32).toNat = 1 := rfl
  rw [toNat_sub, toNat_sub, toNat_sub, h1]
  omega

/-- **A value is among `k` descending ones exactly when it is less than `k` below the first**, modulo `2 ^ 32`. -/
theorem mem_descending (n : UInt32) : ∀ (k : Nat) (o : UInt32), n ∈ descending o k ↔ (o - n).toNat < k
  | 0, o => by simp [descending]
  | k + 1, o => by
    rw [descending, List.mem_cons, mem_descending n k (o - 1)]
    by_cases h : n = o
    · subst h
      simp
    · have := toNat_sub_one_sub h
      simp only [h, false_or]
      omega

/-- The value after the first is met again only once the counter has gone round. -/
theorem add_one_not_mem_descending {o : UInt32} {k : Nat} (hk : k < 2 ^ 32) : o + 1 ∉ descending o k := by
  have hlast : (0 - 1 : UInt32).toNat = 2 ^ 32 - 1 := rfl
  have h : o - (o + 1) = 0 - 1 := by grind
  rw [mem_descending, h, hlast]
  omega

theorem nodup_descending : ∀ (k : Nat) (o : UInt32), k ≤ 2 ^ 32 → (descending o k).Nodup
  | 0, _, _ => List.nodup_nil
  | k + 1, o, hk => by
    have ho : o - 1 + 1 = o := by grind
    have hnot := add_one_not_mem_descending (o := o - 1) (k := k) (by omega)
    rw [ho] at hnot
    exact List.nodup_cons.2 ⟨hnot, nodup_descending k (o - 1) (by omega)⟩

/-- Neighbours differ by one. -/
theorem descending_neighbours : ∀ (front : List UInt32) (o a b : UInt32) (k : Nat) (back : List UInt32),
    descending o k = front ++ a :: b :: back → a = b + 1
  | _, _, _, _, 0, _, h => by simp [descending] at h
  | [], o, a, b, 1, back, h => by cases h
  | [], o, a, b, k + 2, back, h => by
    simp only [descending, List.nil_append, List.cons.injEq] at h
    obtain ⟨rfl, rfl, -⟩ := h
    grind
  | x :: front, o, a, b, k + 1, back, h => by
    simp only [descending, List.cons_append, List.cons.injEq] at h
    exact descending_neighbours front (o - 1) a b k back h.2

theorem head?_descending (o : UInt32) (k : Nat) : (descending o (k + 1)).head? = some o := rfl

theorem getLast?_descending : ∀ (k : Nat) (o : UInt32),
    (descending o (k + 1)).getLast? = some (o - UInt32.ofNat k)
  | 0, o => congrArg some (UInt32.sub_zero o).symm
  | k + 1, o => by
    have ih := getLast?_descending k (o - 1)
    rw [descending] at ih ⊢
    rw [descending, List.getLast?_cons_cons, ih]
    congr 1
    rw [ofNat_succ]
    grind

end Counter
