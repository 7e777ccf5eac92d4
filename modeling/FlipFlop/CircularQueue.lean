import Mathlib
/-!
# CircularQueue — the last `N` items pushed

A bounded queue that overwrites its oldest item.  Iteration goes from the newest item to the oldest.
-/
structure CircularQueue (α : Type) (N : Nat) where
  items : List α
  length_le : items.length ≤ N
  deriving Repr, DecidableEq

namespace CircularQueue

variable {α β : Type} {N : Nat}

def withCapacity (N : Nat) : CircularQueue α N := ⟨[], Nat.zero_le N⟩

def push (q : CircularQueue α N) (x : α) : CircularQueue α N :=
  ⟨(x :: q.items).take N, by rw [List.length_take]; exact Nat.min_le_left _ _⟩

def clear (_ : CircularQueue α N) : CircularQueue α N := withCapacity N

def iter (q : CircularQueue α N) : List α := q.items

def map (f : α → β) (q : CircularQueue α N) : CircularQueue β N :=
  ⟨q.items.map f, by rw [List.length_map]; exact q.length_le⟩

theorem ext_items {q r : CircularQueue α N} (h : q.items = r.items) : q = r := by
  cases q; cases r; cases h; rfl

theorem map_push (f : α → β) (q : CircularQueue α N) (x : α) : (q.push x).map f = (q.map f).push (f x) :=
  ext_items (by simp only [map, push, List.map_take, List.map_cons])

end CircularQueue
