import Mathlib
/-!
# Heapless — fixed buffers and the panics of filling them

A `[u8; N]` is a `Vector`, a `heapless::Vec<T, N>` an `HVec`: a list that carries the proof that it fits its capacity.
Code that unwraps, indexes or slices answers in `Except Panic`; a panic is a value here, so that "never panics" is a
statement.
-/
namespace Rust

/-- Why a run ended other than by returning. `fuel` is no panic of the program: a loop was given too few rounds. -/
inductive Panic
  | unwrap
  | index
  | slice
  | arith
  | fuel
  deriving Repr, DecidableEq

/-- `Result::unwrap` and `Option::unwrap`. -/
def unwrap {α : Type} : Option α → Except Panic α
  | some a => .ok a
  | none => .error .unwrap

/-- `&xs[lo..hi]`. -/
def slice {α : Type} (xs : List α) (lo hi : Nat) : Except Panic (List α) :=
  if lo ≤ hi ∧ hi ≤ xs.length then .ok ((xs.drop lo).take (hi - lo)) else .error .slice

/-- `heapless::Vec<α, N>`. -/
structure HVec (α : Type) (N : Nat) where
  toList : List α
  length_le : toList.length ≤ N
  deriving Repr

variable {α : Type} {N : Nat}

theorem HVec.ext_toList {v w : HVec α N} (h : v.toList = w.toList) : v = w := by
  cases v; cases w; cases h; rfl

instance [DecidableEq α] : DecidableEq (HVec α N) := fun v w =>
  decidable_of_iff (v.toList = w.toList) ⟨HVec.ext_toList, congrArg HVec.toList⟩

def HVec.new : HVec α N := ⟨[], Nat.zero_le N⟩

/-- `Vec::extend_from_slice`: all of the slice, or nothing of it when it does not fit. -/
def HVec.extendFromSlice (v : HVec α N) (xs : List α) : Option (HVec α N) :=
  if h : v.toList.length + xs.length ≤ N then some ⟨v.toList ++ xs, by simpa using h⟩ else none

/-- `Vec::from_slice`. -/
def HVec.fromSlice (xs : List α) : Option (HVec α N) := HVec.new.extendFromSlice xs

theorem HVec.fromSlice_of_le {xs : List α} (h : xs.length ≤ N) :
    (HVec.fromSlice xs : Option (HVec α N)) = some ⟨xs, h⟩ := by
  simp [HVec.fromSlice, HVec.extendFromSlice, HVec.new, h]

theorem HVec.fromSlice_of_gt {xs : List α} (h : N < xs.length) :
    (HVec.fromSlice xs : Option (HVec α N)) = none := by
  have : ¬ xs.length ≤ N := by omega
  simp [HVec.fromSlice, HVec.extendFromSlice, HVec.new, this]

/-! ## Writing into a buffer -/

/-- The buffer with `bs` at its front and what it held after them; `none` when `bs` are too many. -/
def writeFront (bs : List α) (buf : Vector α N) : Option (Vector α N) :=
  if h : bs.length ≤ N then
    some ⟨(bs ++ buf.toList.drop bs.length).toArray, by simp; omega⟩
  else none

theorem writeFront_of_le (bs : List α) (buf : Vector α N) (h : bs.length ≤ N) :
    ∃ out, writeFront bs buf = some out ∧ out.toList = bs ++ buf.toList.drop bs.length := by
  unfold writeFront
  rw [dif_pos h]
  exact ⟨_, rfl, by simp⟩

theorem writeFront_of_gt {bs : List α} {buf : Vector α N} (h : N < bs.length) : writeFront bs buf = none := by
  unfold writeFront
  rw [dif_neg (by omega)]

end Rust
