import Mathlib
/-!
# Polling — a log read over two queues

A reader polls a log that only its last `window` entries are kept of.  A request carries how many entries the reader is
past; it is answered with the entry at that position, or with the oldest kept if that one is gone, and with nothing if
there is none yet.  Requests and replies wait in queues of any length, either may be lost at any moment, and the reader
polls again without waiting.

The reader is never taken back, and it passes over nothing that is still kept (`orderly_run`): what `Orderly` says of
the two queues is that each is in order, and that what is in the second is no further than the first may ask for.
-/
namespace Polling

structure State where
  size : Nat
  position : Nat
  requests : List Nat
  replies : List (Option Nat)
  deriving Repr, DecidableEq

inductive Action
  | append
  | ask
  | answer
  | read
  | loseRequest (i : Nat)
  | loseReply (i : Nat)
  deriving Repr, DecidableEq

variable (window : Nat)

def init : State := { size := 0, position := 0, requests := [], replies := [] }

/-- The entry a request is answered with: its own or the oldest kept. -/
def answerTo (size position : Nat) : Option Nat :=
  if max position (size - window) < size then some (max position (size - window)) else none

/-- Where a reply leaves its reader. -/
def positionAfter (position : Nat) : Option Nat → Nat
  | some k => k + 1
  | none => position

def step (s : State) : Action → State
  | .append => { s with size := s.size + 1 }
  | .ask => { s with requests := s.requests ++ [s.position] }
  | .answer =>
    match s.requests with
    | [] => s
    | q :: requests => { s with requests, replies := s.replies ++ [answerTo window s.size q] }
  | .read =>
    match s.replies with
    | [] => s
    | r :: replies => { s with replies, position := positionAfter s.position r }
  | .loseRequest i => { s with requests := s.requests.eraseIdx i }
  | .loseReply i => { s with replies := s.replies.eraseIdx i }

def run (actions : List Action) : State := actions.foldl (step window) init

/-- The entries on their way to the reader. -/
def State.coming (s : State) : List Nat := s.replies.filterMap id

/-- Both queues are in order, and neither is behind the reader by more than what was lost from the log. -/
structure Orderly (s : State) : Prop where
  requests : s.requests.Pairwise (· ≤ ·)
  requests_le : ∀ q ∈ s.requests, q ≤ s.position
  coming : s.coming.Pairwise (· ≤ ·)
  coming_lt : ∀ k ∈ s.coming, k < s.size
  position_le_size : s.position ≤ s.size
  position_le_coming : ∀ k ∈ s.coming, s.position ≤ k + 1
  coming_le_request : ∀ k ∈ s.coming, ∀ q ∈ s.requests, k ≤ max q (s.size - window)
  coming_le_position : ∀ k ∈ s.coming, k ≤ max s.position (s.size - window)
  position_le_request : ∀ q ∈ s.requests, s.position ≤ max q (s.size - window) + 1

variable {window}

theorem orderly_init : Orderly window init where
  requests := .nil
  requests_le := by simp [init]
  coming := .nil
  coming_lt := by simp [init, State.coming]
  position_le_size := Nat.le_refl 0
  position_le_coming := by simp [init, State.coming]
  coming_le_request := by simp [init, State.coming]
  coming_le_position := by simp [init, State.coming]
  position_le_request := by simp [init]

theorem answerTo_eq_some {size position k : Nat} :
    answerTo window size position = some k ↔ k = max position (size - window) ∧ k < size := by
  unfold answerTo
  split <;> simp <;> omega

theorem coming_append (replies : List (Option Nat)) (r : Option Nat) :
    (replies ++ [r]).filterMap id = replies.filterMap id ++ r.toList := by
  rw [List.filterMap_append]
  cases r <;> rfl

theorem Orderly.append {s : State} (h : Orderly window s) : Orderly window (step window s .append) where
  requests := h.requests
  requests_le := h.requests_le
  coming := h.coming
  coming_lt := fun k hk => Nat.lt_succ_of_lt (h.coming_lt k hk)
  position_le_size := Nat.le_succ_of_le h.position_le_size
  position_le_coming := h.position_le_coming
  coming_le_request := fun k hk q hq => by
    have := h.coming_le_request k hk q hq
    show k ≤ max q (s.size + 1 - window)
    omega
  coming_le_position := fun k hk => by
    have := h.coming_le_position k hk
    show k ≤ max s.position (s.size + 1 - window)
    omega
  position_le_request := fun q hq => by
    have := h.position_le_request q hq
    show s.position ≤ max q (s.size + 1 - window) + 1
    omega

theorem Orderly.ask {s : State} (h : Orderly window s) : Orderly window (step window s .ask) where
  requests := by
    show (s.requests ++ [s.position]).Pairwise (· ≤ ·)
    rw [List.pairwise_append]
    refine ⟨h.requests, List.pairwise_singleton _ _, fun q hq p hp => ?_⟩
    rw [List.mem_singleton] at hp
    exact hp ▸ h.requests_le q hq
  requests_le := fun q hq => by
    rcases List.mem_append.1 hq with hq | hq
    · exact h.requests_le q hq
    · exact Nat.le_of_eq (List.mem_singleton.1 hq)
  coming := h.coming
  coming_lt := h.coming_lt
  position_le_size := h.position_le_size
  position_le_coming := h.position_le_coming
  coming_le_request := fun k hk q hq => by
    rcases List.mem_append.1 hq with hq | hq
    · exact h.coming_le_request k hk q hq
    · -- a new request asks from where the reader is
      rw [List.mem_singleton.1 hq]
      exact h.coming_le_position k hk
  coming_le_position := h.coming_le_position
  position_le_request := fun q hq => by
    rcases List.mem_append.1 hq with hq | hq
    · exact h.position_le_request q hq
    · rw [List.mem_singleton.1 hq]
      exact Nat.le_succ_of_le (Nat.le_max_left _ _)

/-- The queue of requests moves on and its head is answered. -/
theorem Orderly.answer_head {s : State} (h : Orderly window s) {q : Nat} {requests : List Nat}
    (hs : s.requests = q :: requests) :
    Orderly window { s with requests, replies := s.replies ++ [answerTo window s.size q] } := by
  have hsorted := h.requests
  rw [hs, List.pairwise_cons] at hsorted
  have hq : q ∈ s.requests := by rw [hs]; exact List.mem_cons_self
  have hrest : ∀ r ∈ requests, r ∈ s.requests := by
    intro r hr
    rw [hs]
    exact List.mem_cons_of_mem q hr
  -- what is coming now is what was, or the answer
  have hmem : ∀ k, k ∈ (s.replies ++ [answerTo window s.size q]).filterMap id →
      k ∈ s.coming ∨ (k = max q (s.size - window) ∧ k < s.size) := by
    intro k hk
    rw [coming_append, List.mem_append, Option.mem_toList] at hk
    exact hk.imp id answerTo_eq_some.1
  refine ⟨hsorted.2, fun r hr => h.requests_le r (hrest r hr), ?_, ?_, h.position_le_size, ?_, ?_, ?_,
    fun r hr => h.position_le_request r (hrest r hr)⟩
  · show ((s.replies ++ [answerTo window s.size q]).filterMap id).Pairwise (· ≤ ·)
    rw [coming_append, List.pairwise_append]
    refine ⟨h.coming, ?_, fun k hk k' hk' => ?_⟩
    · cases answerTo window s.size q <;> simp
    · obtain ⟨rfl, -⟩ := answerTo_eq_some.1 (Option.mem_toList.1 hk')
      exact h.coming_le_request k hk q hq
  · intro k hk
    rcases hmem k hk with hk | ⟨-, hlt⟩
    · exact h.coming_lt k hk
    · exact hlt
  · intro k hk
    rcases hmem k hk with hk | ⟨rfl, -⟩
    · exact h.position_le_coming k hk
    · exact h.position_le_request q hq
  · intro k hk r hr
    rcases hmem k hk with hk | ⟨rfl, -⟩
    · exact h.coming_le_request k hk r (hrest r hr)
    · have := hsorted.1 r hr
      show max q (s.size - window) ≤ max r (s.size - window)
      omega
  · intro k hk
    rcases hmem k hk with hk | ⟨rfl, -⟩
    · exact h.coming_le_position k hk
    · have := h.requests_le q hq
      show max q (s.size - window) ≤ max s.position (s.size - window)
      omega

/-- The reader takes the head of the queue of replies. -/
theorem Orderly.read_head {s : State} (h : Orderly window s) {r : Option Nat} {replies : List (Option Nat)}
    (hs : s.replies = r :: replies) :
    Orderly window { s with replies, position := positionAfter s.position r } := by
  cases r with
  | none =>
    have hcoming : s.coming = replies.filterMap id := by
      unfold State.coming
      rw [hs]
      rfl
    obtain ⟨h1, h2, h3, h4, h5, h6, h7, h8, h9⟩ := h
    rw [hcoming] at h3 h4 h6 h7 h8
    exact ⟨h1, h2, h3, h4, h5, h6, h7, h8, h9⟩
  | some k =>
    have hcoming : s.coming = k :: replies.filterMap id := by
      unfold State.coming
      rw [hs]
      rfl
    have hk : k ∈ s.coming := by rw [hcoming]; exact List.mem_cons_self
    have hrest : ∀ x ∈ replies.filterMap id, x ∈ s.coming := by
      intro x hx
      rw [hcoming]
      exact List.mem_cons_of_mem k hx
    have hsorted := h.coming
    rw [hcoming, List.pairwise_cons] at hsorted
    have hup := h.position_le_coming k hk
    refine ⟨h.requests, fun q hq => Nat.le_trans (h.requests_le q hq) hup, hsorted.2,
      fun x hx => h.coming_lt x (hrest x hx), h.coming_lt k hk, fun x hx => Nat.succ_le_succ (hsorted.1 x hx),
      fun x hx => h.coming_le_request x (hrest x hx), ?_, fun q hq => Nat.succ_le_succ (h.coming_le_request k hk q hq)⟩
    intro x hx
    have := h.coming_le_position x (hrest x hx)
    show x ≤ max (k + 1) (s.size - window)
    omega

/-- Losing what is under way disturbs nothing. -/
theorem Orderly.lose {s : State} (h : Orderly window s) {requests : List Nat} {replies : List (Option Nat)}
    (hrequests : requests.Sublist s.requests) (hreplies : replies.Sublist s.replies) :
    Orderly window { s with requests, replies } := by
  have hcoming : (replies.filterMap id).Sublist s.coming := hreplies.filterMap id
  exact ⟨h.requests.sublist hrequests, fun q hq => h.requests_le q (hrequests.subset hq), h.coming.sublist hcoming,
    fun k hk => h.coming_lt k (hcoming.subset hk), h.position_le_size,
    fun k hk => h.position_le_coming k (hcoming.subset hk),
    fun k hk q hq => h.coming_le_request k (hcoming.subset hk) q (hrequests.subset hq),
    fun k hk => h.coming_le_position k (hcoming.subset hk), fun q hq => h.position_le_request q (hrequests.subset hq)⟩

theorem Orderly.step {s : State} (h : Orderly window s) (a : Action) : Orderly window (step window s a) := by
  cases a with
  | append => exact h.append
  | ask => exact h.ask
  | answer =>
    simp only [Polling.step]
    split
    · exact h
    · rename_i q requests hs
      exact h.answer_head hs
  | read =>
    simp only [Polling.step]
    split
    · exact h
    · rename_i r replies hs
      exact h.read_head hs
  | loseRequest i => exact h.lose (List.eraseIdx_sublist _ _) (List.Sublist.refl _)
  | loseReply i => exact h.lose (List.Sublist.refl _) (List.eraseIdx_sublist _ _)

variable (window) in
/-- **The queues stay in order**, whatever is sent, answered, read, lost and when. -/
theorem orderly_run (actions : List Action) : Orderly window (run window actions) := by
  induction actions using List.reverseRecOn with
  | nil => exact orderly_init
  | append_singleton actions a ih =>
    unfold run at ih ⊢
    rw [List.foldl_append]
    exact ih.step a

end Polling
