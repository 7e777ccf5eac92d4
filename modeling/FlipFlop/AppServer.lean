import Mathlib
import FlipFlop.AppMessage
import FlipFlop.CircularQueue
import FlipFlop.Counter
import FlipFlop.Mealy
/-!
# AppServer — the reference server's loop (`app/examples/server/main.rs`)

The state of `main`'s select loop and its two arms: answering a request, and storing or resetting when an event is
generated.  The draw `gen_range(0..40) == 0` that decides between storing and resetting is the input's choice here, and
so are the time and the offset a reset draws.  Events are of any type `E`, instants of any type `T`.

Every state the loop reaches is described by two numbers (`Server.Since`): the offset `b` of the first event since the
start or the last reset, and how many events `m` were pushed since.  `start` is `b` for as long as the server runs, the
history is the last ten of the offsets `b`, …, `b + m - 1`, all modulo `2 ^ 32`.
-/
namespace FlipFlop
namespace App

def MAX_EVENTS : Nat := 10

/-- `(Event, u32, Instant)`: an event, its offset and when it was generated. -/
abbrev Stored (E T : Type) := E × UInt32 × T

structure Server (E T : Type) where
  events : CircularQueue (Stored E T) MAX_EVENTS
  start : Option UInt32
  end_ : Option UInt32
  eventOffset : UInt32
  deriving Repr, DecidableEq

variable {E T C : Type}

namespace Server

def init (eventOffset : UInt32) : Server E T :=
  { events := CircularQueue.withCapacity MAX_EVENTS, start := none, end_ := none, eventOffset }

def push (s : Server E T) (event : E) (instant : T) : Server E T :=
  { events := s.events.push (event, s.eventOffset, instant)
    start := if s.start.isNone then some s.eventOffset else s.start
    end_ := some s.eventOffset
    eventOffset := s.eventOffset + 1 }

def reset (s : Server E T) (draw : Fin MAX_EVENTS) : Server E T :=
  let eventOffset := UInt32.ofNat draw
  { events := s.events.clear, start := some eventOffset, end_ := some eventOffset, eventOffset }

/-- `Option<u32>`'s order: `None` is below every `Some`. -/
def optLe : Option UInt32 → Option UInt32 → Bool
  | none, _ => true
  | some _, none => false
  | some a, some b => a ≤ b

def offsetIs (e : Option (Stored E T)) (offset : Option UInt32) : Bool :=
  match e with
  | some (_, o, _) => some o == offset
  | none => false

/-- The event a request asks for, once the range check let it through. -/
def search (s : Server E T) (lastEventOffset : Option UInt32) : Option (Stored E T) :=
  let nextEventOffset := lastEventOffset.map (· + 1)
  let eventsIter := s.events.iter.dropWhile (fun x => some x.2.1 != nextEventOffset && some x.2.1 != lastEventOffset)
  let nextE := eventsIter.head?
  let lastE := eventsIter.tail.head?
  -- the four arms of `match (next_e, last_e)`
  if offsetIs nextE nextEventOffset then nextE
  else if offsetIs lastE lastEventOffset then none
  else if offsetIs nextE lastEventOffset then none
  else s.events.iter.getLast?

def maybeEvent (s : Server E T) (lastEventOffset : Option UInt32) (now : T) : Option (EventOf E NoEE × T) :=
  match s.start, s.end_ with
  | some start, some end_ =>
    if lastEventOffset.isNone || (optLe (some start) lastEventOffset && optLe lastEventOffset (some end_)) then
      (s.search lastEventOffset).map (fun x => (.logged x.1 x.2.1, x.2.2))
    else some (.recovery start end_, now)
  | _, _ => none

/-- `secsSince now t` is `now.duration_since(t).as_secs()`. -/
def reply (secsSince : T → T → UInt64) (s : Server E T) (request : CommandRequest C) (now : T) :
    EventReply (EventOf E NoEE) :=
  eventReply (s.maybeEvent request.lastEventOffset now) (secsSince now)

/-- What one turn of the select loop takes up. -/
inductive Input (E T C : Type)
  | request (request : CommandRequest C) (now : T)
  | push (event : E) (instant : T)
  | reset (draw : Fin MAX_EVENTS)

def step (secsSince : T → T → UInt64) (s : Server E T) :
    Input E T C → Server E T × Option (EventReply (EventOf E NoEE))
  | .request request now => (s, some (s.reply secsSince request now))
  | .push event instant => (s.push event instant, none)
  | .reset draw => (s.reset draw, none)

/-- The states the loop reaches from any starting offset. -/
def Reachable (s : Server E T) : Prop :=
  ∃ (secsSince : T → T → UInt64) (b : UInt32) (inputs : List (Input E T Unit)),
    s = Mealy.run (step secsSince) (init b) inputs

/-! ## The history -/

/-- The offsets held, newest first. -/
def offsets (s : Server E T) : List UInt32 := s.events.items.map (fun x => x.2.1)

/-- `m` events have been pushed since the state whose next offset was `b`. -/
structure Since (b : UInt32) (m : Nat) (s : Server E T) : Prop where
  eventOffset : s.eventOffset = b + UInt32.ofNat m
  offsets : s.offsets = Counter.descending (s.eventOffset - 1) (min m MAX_EVENTS)
  bounds : 0 < m → s.start = some b ∧ s.end_ = some (s.eventOffset - 1)
  first : m = 0 → s.start = none ∨ s.start = some b

theorem since_init (b : UInt32) : Since b 0 (init b : Server E T) where
  eventOffset := (UInt32.add_zero b).symm
  offsets := rfl
  bounds := fun h => absurd h (Nat.lt_irrefl 0)
  first := fun _ => .inl rfl

theorem since_reset (s : Server E T) (draw : Fin MAX_EVENTS) : Since (UInt32.ofNat draw) 0 (s.reset draw) where
  eventOffset := (UInt32.add_zero _).symm
  offsets := rfl
  bounds := fun h => absurd h (Nat.lt_irrefl 0)
  first := fun _ => .inr rfl

theorem Since.push {b : UInt32} {m : Nat} {s : Server E T} (h : Since b m s) (event : E) (instant : T) :
    Since b (m + 1) (s.push event instant) where
  eventOffset := by
    simp only [Server.push]
    rw [h.eventOffset, Counter.ofNat_succ]
    exact UInt32.add_assoc _ _ _
  offsets := by
    have hold := h.offsets
    have htop : s.eventOffset + 1 - 1 = s.eventOffset := by grind
    simp only [Server.offsets, Server.push, CircularQueue.push, List.map_take, List.map_cons] at hold ⊢
    rw [hold, htop, ← Counter.descending, Counter.take_descending]
    congr 1
    omega
  bounds := fun _ => by
    have htop : s.eventOffset + 1 - 1 = s.eventOffset := by grind
    refine ⟨?_, by simp only [Server.push]; rw [htop]⟩
    simp only [Server.push]
    by_cases hm : m = 0
    · have hb : s.eventOffset = b := by rw [h.eventOffset, hm]; exact UInt32.add_zero b
      rcases h.first hm with hs | hs <;> simp [hs, hb]
    · simp [(h.bounds (by omega)).1]
  first := fun hm => by cases hm

theorem Since.step {b : UInt32} {m : Nat} {s : Server E T} (h : Since b m s) (secsSince : T → T → UInt64)
    (i : Input E T C) : ∃ b' m', Since b' m' (step secsSince s i).1 := by
  cases i with
  | request request now => exact ⟨b, m, h⟩
  | push event instant => exact ⟨b, m + 1, h.push event instant⟩
  | reset draw => exact ⟨_, 0, since_reset s draw⟩

/-- **Every reachable state is some number of pushes after a start or a reset.** -/
theorem Reachable.since {s : Server E T} (h : Reachable s) : ∃ b m, Since b m s := by
  obtain ⟨secsSince, b, inputs, rfl⟩ := h
  refine Mealy.run_invariant (step secsSince) (P := fun s => ∃ b m, Since b m s) inputs ⟨b, 0, since_init b⟩ ?_
  rintro s i - ⟨b, m, hs⟩
  exact hs.step secsSince i

theorem Since.pos {b : UInt32} {m : Nat} {s : Server E T} (h : Since b m s) (hne : s.events.items ≠ []) : 0 < m := by
  rcases Nat.eq_zero_or_pos m with rfl | hm
  · have hnil : s.offsets = [] := h.offsets
    exact absurd (List.map_eq_nil_iff.1 hnil) hne
  · exact hm

theorem Since.ne_nil {b : UInt32} {m : Nat} {s : Server E T} (h : Since b m s) (hm : 0 < m) :
    s.events.items ≠ [] := by
  intro hnil
  have hlen := congrArg List.length h.offsets
  have hzero : s.offsets.length = 0 := by unfold Server.offsets; rw [hnil]; rfl
  rw [hzero, Counter.length_descending] at hlen
  unfold MAX_EVENTS at hlen
  omega

/-! ## The search -/

theorem iter_eq (s : Server E T) : s.events.iter = s.events.items := rfl

theorem search_none (s : Server E T) : s.search none = s.events.items.getLast? := by
  have hskip : s.events.iter.dropWhile (fun x => some x.2.1 != none && some x.2.1 != none) = [] := by
    rw [List.dropWhile_eq_nil_iff]
    intro x _
    rfl
  simp only [search, Option.map_none, hskip, List.head?_nil, List.tail_nil, offsetIs]
  rfl

theorem head?_dropWhile {α : Type} (p : α → Bool) : ∀ l : List α, (l.dropWhile p).head? = l.find? (fun x => !p x)
  | [] => rfl
  | x :: l => by
    cases hx : p x with
    | false => simp [hx]
    | true => simpa [List.dropWhile_cons, hx] using head?_dropWhile p l

theorem ne_add_one (n : UInt32) : n ≠ n + 1 := by
  intro h
  have := congrArg UInt32.toNat h
  rw [UInt32.toNat_add] at this
  have hn := n.toNat_lt
  have h1 : (1 : UInt32).toNat = 1 := rfl
  omega

theorem add_one_not_mem_descending {n : UInt32} {k : Nat} (hk : k ≤ MAX_EVENTS) :
    n + 1 ∉ Counter.descending n k :=
  Counter.add_one_not_mem_descending (Nat.lt_of_le_of_lt hk (by decide))

theorem find?_successor_none {s : Server E T} {n : UInt32} :
    s.events.items.find? (fun x => x.2.1 == n + 1) = none ↔ n + 1 ∉ s.offsets := by
  rw [List.find?_eq_none, offsets, List.mem_map]
  constructor
  · rintro h ⟨x, hx, hxo⟩
    exact h x hx (by simpa using hxo)
  · intro h x hx hxo
    exact h ⟨x, hx, by simpa using hxo⟩

theorem find?_successor_some {s : Server E T} {n : UInt32} (h : n + 1 ∈ s.offsets) :
    ∃ x, s.events.items.find? (fun x => x.2.1 == n + 1) = some x ∧ x.2.1 = n + 1 := by
  cases hf : s.events.items.find? (fun x => x.2.1 == n + 1) with
  | none => exact absurd h (find?_successor_none.1 hf)
  | some x => exact ⟨x, rfl, by simpa using List.find?_some hf⟩

/-- Looking from the newest event down, the successor of `n` is met before `n` itself. -/
theorem find?_successor (n : UInt32) : ∀ (k : Nat) (o : UInt32) (xs : List (Stored E T)), k ≤ MAX_EVENTS →
    xs.map (fun x => x.2.1) = Counter.descending o k → n + 1 ∈ Counter.descending o k →
    xs.find? (fun x => !(some x.2.1 != some (n + 1) && some x.2.1 != some n)) = xs.find? (fun x => x.2.1 == n + 1)
  | 0, _, _, _, _, hm => absurd hm List.not_mem_nil
  | k + 1, o, [], _, hx, _ => by cases hx
  | k + 1, o, x :: xs, hk, hx, hm => by
    rw [Counter.descending, List.map_cons, List.cons.injEq] at hx
    obtain ⟨hxo, hx⟩ := hx
    by_cases hnext : x.2.1 = n + 1
    · simp [hnext]
    · have hne : x.2.1 ≠ n := by
        intro hn
        rw [← hxo, hn] at hm
        exact add_one_not_mem_descending hk hm
      have hm' : n + 1 ∈ Counter.descending (o - 1) k := by
        rw [Counter.descending, List.mem_cons] at hm
        exact hm.resolve_left (fun h => hnext (hxo.trans h.symm))
      have ih := find?_successor n k (o - 1) xs (by omega) hx hm'
      simpa [List.find?_cons, hnext, hne] using ih

/-- **The four arms of the search, as the rules read them**: the successor if it is held, nothing if the offset itself
is the newest one held, the oldest event if neither is. -/
theorem search_some {o : UInt32} {k : Nat} {s : Server E T} (hs : s.offsets = Counter.descending o k)
    (hk : k ≤ MAX_EVENTS) (n : UInt32) :
    s.search (some n) =
      match s.events.items.find? (fun x => x.2.1 == n + 1) with
      | some x => some x
      | none => if n ∈ s.offsets then none else s.events.items.getLast? := by
  have hhead := head?_dropWhile (fun x : Stored E T => some x.2.1 != some (n + 1) && some x.2.1 != some n)
    s.events.items
  by_cases hnext : n + 1 ∈ s.offsets
  · -- the successor is held, and the scan stops at it
    rw [find?_successor n k o _ hk hs (hs ▸ hnext)] at hhead
    obtain ⟨x, hf, hxo⟩ := find?_successor_some hnext
    rw [hf] at hhead ⊢
    simp only [search, iter_eq, Option.map_some, hhead, offsetIs, hxo, beq_self_eq_true, if_true]
  · rw [find?_successor_none.2 hnext]
    by_cases hlast : n ∈ s.offsets
    · rw [if_pos hlast]
      obtain ⟨y, hy, hyo⟩ := List.mem_map.1 hlast
      cases hf : s.events.items.find? (fun x => !(some x.2.1 != some (n + 1) && some x.2.1 != some n)) with
      | none =>
        have hy' := List.find?_eq_none.1 hf y hy
        simp [hyo] at hy'
      | some x =>
        have hxm := List.mem_of_find?_eq_some hf
        have hxo : x.2.1 = n := by
          have h1 : x.2.1 ≠ n + 1 := fun h => hnext (List.mem_map.2 ⟨x, hxm, h⟩)
          simpa [h1] using List.find?_some hf
        have hne : (some n == some (n + 1)) = false := by simp [ne_add_one n]
        rw [hf] at hhead
        simp only [search, iter_eq, Option.map_some, hhead, offsetIs, hxo, hne, beq_self_eq_true, if_true,
          Bool.false_eq_true, if_false, ite_self]
    · rw [if_neg hlast]
      have hskip : s.events.items.dropWhile (fun x => some x.2.1 != some (n + 1) && some x.2.1 != some n) = [] := by
        rw [List.dropWhile_eq_nil_iff]
        intro x hx
        have h1 : x.2.1 ≠ n + 1 := fun h => hnext (List.mem_map.2 ⟨x, hx, h⟩)
        have h2 : x.2.1 ≠ n := fun h => hlast (List.mem_map.2 ⟨x, hx, h⟩)
        simp [h1, h2]
      simp only [search, iter_eq, Option.map_some, hskip, List.head?_nil, List.tail_nil, offsetIs,
        Bool.false_eq_true, if_false]

/-! ## The answer -/

/-- The range check, as the code makes it: on the bare numbers. -/
def inRange (s : Server E T) (n : UInt32) : Bool :=
  match s.start, s.end_ with
  | some start, some end_ => decide (start ≤ n) && decide (n ≤ end_)
  | _, _ => false

theorem eventReply_event {α : Type} (x : Option (α × T)) (f : T → UInt64) :
    (eventReply x f).event = x.map Prod.fst := by
  cases x <;> rfl

/-- A request without an offset is given the oldest event. -/
theorem Since.reply_none {b : UInt32} {m : Nat} {s : Server E T} (h : Since b m s) (hm : 0 < m)
    (secsSince : T → T → UInt64) {request : CommandRequest C} (hreq : request.lastEventOffset = none) (now : T) :
    (s.reply secsSince request now).event = s.events.items.getLast?.map (fun x => .logged x.1 x.2.1) := by
  obtain ⟨hstart, hend⟩ := h.bounds hm
  rw [reply, eventReply_event, hreq, maybeEvent, hstart, hend]
  simp only [Option.isNone_none, Bool.true_or, if_true, search_none, Option.map_map]
  rfl

theorem maybeEvent_some (s : Server E T) (n : UInt32) (now : T) {start end_ : UInt32} (hs : s.start = some start)
    (he : s.end_ = some end_) : s.maybeEvent (some n) now =
      if s.inRange n = true then (s.search (some n)).map (fun x => (.logged x.1 x.2.1, x.2.2))
      else some (.recovery start end_, now) := by
  simp only [maybeEvent, inRange, hs, he, Option.isNone_some, Bool.false_or, optLe]

theorem Since.reply_some {b : UInt32} {m : Nat} {s : Server E T} (h : Since b m s) (hm : 0 < m)
    (secsSince : T → T → UInt64) {request : CommandRequest C} {n : UInt32} (hreq : request.lastEventOffset = some n)
    (now : T) :
    (s.reply secsSince request now).event =
      if s.inRange n = true then (s.search (some n)).map (fun x => .logged x.1 x.2.1)
      else some (.recovery b (s.eventOffset - 1)) := by
  obtain ⟨hstart, hend⟩ := h.bounds hm
  rw [reply, eventReply_event, hreq, maybeEvent_some s n now hstart hend]
  split
  · rw [Option.map_map]; rfl
  · rfl

theorem Since.getLast?_offsets {b : UInt32} {m : Nat} {s : Server E T} (h : Since b m s) (hm : 0 < m) :
    s.offsets.getLast? = some (s.eventOffset - UInt32.ofNat (min m MAX_EVENTS)) := by
  obtain ⟨k, hk⟩ : ∃ k, min m MAX_EVENTS = k + 1 := ⟨min m MAX_EVENTS - 1, by unfold MAX_EVENTS; omega⟩
  rw [h.offsets, hk, Counter.getLast?_descending, Counter.ofNat_succ]
  congr 1
  grind

theorem Since.head?_offsets {b : UInt32} {m : Nat} {s : Server E T} (h : Since b m s) (hm : 0 < m) :
    s.offsets.head? = some (s.eventOffset - 1) := by
  obtain ⟨k, hk⟩ : ∃ k, min m MAX_EVENTS = k + 1 := ⟨min m MAX_EVENTS - 1, by unfold MAX_EVENTS; omega⟩
  rw [h.offsets, hk, Counter.head?_descending]

end Server
end App
end FlipFlop
