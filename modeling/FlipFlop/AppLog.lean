import FlipFlop.AppServer
/-!
# AppLog — the server as a window on the log of everything it generated (`app/examples/server/main.rs`)

A `Log` forgets nothing: it is the offset of the first event since the start or the last reset, and every event since.
The server's state is a function of it (`run_eq_server`), and so is every reply (`replies_are_logged`): whatever the
offsets wrap to, an event that is replied is one of the last ten of the log, under its own offset and with its own age.
-/
namespace FlipFlop
namespace App

variable {E T C : Type}

theorem Server.ext_fields {s t : Server E T} (hevents : s.events = t.events) (hstart : s.start = t.start)
    (hend : s.end_ = t.end_) (hnext : s.eventOffset = t.eventOffset) : s = t := by
  cases s
  cases t
  cases hevents
  cases hstart
  cases hend
  cases hnext
  rfl

/-- What a server that forgot nothing would remember, oldest first. -/
structure Log (E T : Type) where
  base : UInt32
  wasReset : Bool
  stored : List (E × T)
  deriving Repr, DecidableEq

namespace Log

def init (eventOffset : UInt32) : Log E T := { base := eventOffset, wasReset := false, stored := [] }

def push (L : Log E T) (event : E) (instant : T) : Log E T := { L with stored := L.stored ++ [(event, instant)] }

def reset (draw : Fin MAX_EVENTS) : Log E T := { base := UInt32.ofNat draw, wasReset := true, stored := [] }

/-- The offset that the next event is given. -/
def next (L : Log E T) : UInt32 := L.base + UInt32.ofNat L.stored.length

/-- The events with the offsets they were given. -/
def entries (L : Log E T) : List (Stored E T) :=
  L.stored.zipIdx.map (fun (x, i) => (x.1, L.base + UInt32.ofNat i, x.2))

/-- The first event that a server which holds ten still holds. -/
def oldest (L : Log E T) : Nat := L.stored.length - MAX_EVENTS

/-- The server whose history is the end of the log. -/
def server (L : Log E T) : Server E T where
  events := ⟨L.entries.reverse.take MAX_EVENTS, by rw [List.length_take]; exact Nat.min_le_left _ _⟩
  start := if L.wasReset || !L.stored.isEmpty then some L.base else none
  end_ := if L.stored.isEmpty then (if L.wasReset then some L.base else none) else some (L.next - 1)
  eventOffset := L.next

/-! ## The server follows the log -/

theorem length_entries (L : Log E T) : L.entries.length = L.stored.length := by
  unfold entries
  rw [List.length_map, List.length_zipIdx]

theorem getElem?_entries (L : Log E T) (i : Nat) :
    L.entries[i]? = L.stored[i]?.map (fun x => (x.1, L.base + UInt32.ofNat i, x.2)) := by
  unfold entries
  rw [List.getElem?_map, List.getElem?_zipIdx, Option.map_map, Nat.zero_add]
  rfl

theorem entries_push (L : Log E T) (event : E) (instant : T) :
    (L.push event instant).entries = L.entries ++ [(event, L.next, instant)] := by
  unfold entries push next
  simp only [List.zipIdx_append, List.map_append, List.zipIdx_cons, List.zipIdx_nil, List.map_cons, List.map_nil,
    Nat.zero_add]

theorem next_push (L : Log E T) (event : E) (instant : T) : (L.push event instant).next = L.next + 1 := by
  unfold next push
  simp only [List.length_append, List.length_cons, List.length_nil, Nat.zero_add]
  rw [Counter.ofNat_succ, UInt32.add_assoc]

theorem server_init (b : UInt32) : (init b : Log E T).server = Server.init b := by
  have hnext : (init b : Log E T).next = b := UInt32.add_zero b
  simp only [server, hnext]
  rfl

/-- Forgetting before the push what the push would forget makes no difference. -/
theorem take_cons_take {α : Type} (x : α) (l : List α) : ∀ N : Nat, (x :: l.take N).take N = (x :: l).take N
  | 0 => rfl
  | N + 1 => by
    rw [List.take_succ_cons, List.take_succ_cons, List.take_take, Nat.min_eq_left (Nat.le_succ N)]

theorem start_server {L : Log E T} (h : (L.wasReset || !L.stored.isEmpty) = true) : L.server.start = some L.base :=
  if_pos h

theorem server_push (L : Log E T) (event : E) (instant : T) :
    (L.push event instant).server = L.server.push event instant := by
  have hevents : (L.push event instant).server.events = L.server.events.push (event, L.next, instant) := by
    apply CircularQueue.ext_items
    show (L.push event instant).entries.reverse.take MAX_EVENTS
      = ((event, L.next, instant) :: L.entries.reverse.take MAX_EVENTS).take MAX_EVENTS
    rw [entries_push, List.reverse_append, List.reverse_singleton, List.singleton_append, take_cons_take]
  have hnonempty : (L.push event instant).stored.isEmpty = false := by simp [push]
  have hstart : (L.push event instant).server.start
      = if L.server.start.isNone then some L.next else L.server.start := by
    have hnow : (L.push event instant).server.start = some L.base :=
      start_server (by rw [hnonempty, Bool.not_false, Bool.or_true])
    rw [hnow]
    by_cases hset : (L.wasReset || !L.stored.isEmpty) = true
    · rw [start_server hset]
      rfl
    · -- the first event is given the offset of the start
      have hnone : L.server.start = none := if_neg hset
      have hnil : L.stored = [] := by simp at hset; exact hset.2
      have hfirst : L.next = L.base := by
        unfold next
        rw [hnil]
        exact UInt32.add_zero L.base
      rw [hnone, hfirst]
      rfl
  have hend : (L.push event instant).server.end_ = some L.next := by
    have hlast : L.next + 1 - 1 = L.next := by grind
    simp only [server, hnonempty, next_push, hlast]
    rfl
  have hnext : (L.push event instant).server.eventOffset = L.server.eventOffset + 1 := next_push L event instant
  exact Server.ext_fields hevents hstart hend hnext

theorem server_reset (L : Log E T) (draw : Fin MAX_EVENTS) :
    (reset draw : Log E T).server = L.server.reset draw := by
  have hnext : (reset draw : Log E T).next = UInt32.ofNat draw := UInt32.add_zero _
  simp only [server, hnext]
  rfl

/-! ## What the server holds -/

theorem since_server (L : Log E T) : Server.Since L.base L.stored.length L.server := by
  obtain ⟨base, wasReset, stored⟩ := L
  -- one push at a time, from the empty log
  induction stored using List.reverseRecOn with
  | nil =>
    refine ⟨rfl, rfl, fun h => absurd h (Nat.lt_irrefl 0), fun _ => ?_⟩
    cases wasReset with
    | false => exact .inl rfl
    | true => exact .inr rfl
  | append_singleton stored x ih =>
    have hpush := ih.push x.1 x.2
    rw [← server_push] at hpush
    simp only [List.length_append, List.length_cons, List.length_nil, Nat.zero_add]
    exact hpush

/-- The history, newest first, is the log from its oldest event held on. -/
theorem items_server (L : Log E T) : L.server.events.items = (L.entries.drop L.oldest).reverse := by
  show L.entries.reverse.take MAX_EVENTS = _
  rw [List.take_reverse, length_entries]
  rfl

theorem getLast?_items (L : Log E T) : L.server.events.items.getLast? = L.entries[L.oldest]? := by
  rw [items_server, List.getLast?_reverse, List.head?_drop]

theorem of_mem_items {L : Log E T} {x : Stored E T} (h : x ∈ L.server.events.items) :
    ∃ i, L.entries[i]? = some x ∧ L.oldest ≤ i := by
  rw [items_server, List.mem_reverse, List.mem_iff_getElem?] at h
  obtain ⟨k, hk⟩ := h
  rw [List.getElem?_drop] at hk
  exact ⟨L.oldest + k, hk, Nat.le_add_right _ _⟩

/-- An entry is an event of the log, under its offset and with its instant. -/
theorem getElem?_entries_iff {L : Log E T} {i : Nat} {e : E} {o : UInt32} {t : T} :
    L.entries[i]? = some (e, o, t) ↔ L.stored[i]? = some (e, t) ∧ o = L.base + UInt32.ofNat i := by
  rw [getElem?_entries, Option.map_eq_some_iff]
  constructor
  · rintro ⟨⟨e', t'⟩, hget, heq⟩
    cases heq
    exact ⟨hget, rfl⟩
  · rintro ⟨hget, rfl⟩
    exact ⟨(e, t), hget, rfl⟩

/-! ## What the server replies -/

theorem search_of_next {L : Log E T} {n : UInt32} {x : Stored E T}
    (h : L.server.events.items.find? (fun x => x.2.1 == n + 1) = some x) : L.server.search (some n) = some x := by
  rw [Server.search_some L.since_server.offsets (Nat.min_le_right _ _), h]

theorem search_of_newest {L : Log E T} {n : UInt32} (hnext : n + 1 ∉ L.server.offsets) (hn : n ∈ L.server.offsets) :
    L.server.search (some n) = none := by
  rw [Server.search_some L.since_server.offsets (Nat.min_le_right _ _), Server.find?_successor_none.2 hnext]
  exact if_pos hn

theorem search_of_absent {L : Log E T} {n : UInt32} (hnext : n + 1 ∉ L.server.offsets) (hn : n ∉ L.server.offsets) :
    L.server.search (some n) = L.entries[L.oldest]? := by
  rw [Server.search_some L.since_server.offsets (Nat.min_le_right _ _), Server.find?_successor_none.2 hnext,
    ← getLast?_items]
  exact if_neg hn

/-- How far the offset asked from is behind the newest one, round the wrap; asking from nothing is asking from before
everything held. -/
def behind (L : Log E T) : Option UInt32 → Nat
  | none => MAX_EVENTS
  | some n => (L.next - 1 - n).toNat

theorem successor_mem_iff {L : Log E T} {n : UInt32} :
    n + 1 ∈ L.server.offsets ↔ 0 < L.behind (some n) ∧ L.behind (some n) ≤ min L.stored.length MAX_EVENTS := by
  have hoffsets : L.server.offsets = Counter.descending (L.next - 1) (min L.stored.length MAX_EVENTS) :=
    L.since_server.offsets
  have hsub : L.next - 1 - (n + 1) = L.next - 1 - 1 - n := by grind
  rw [hoffsets, Counter.mem_descending, hsub, behind]
  by_cases hn : n = L.next - 1
  · -- the newest offset has no successor yet
    subst hn
    have hall : (L.next - 1 - 1 - (L.next - 1)).toNat = 2 ^ 32 - 1 := by
      have hneg : L.next - 1 - 1 - (L.next - 1) = 0 - 1 := by grind
      rw [hneg]
      rfl
    rw [hall, UInt32.sub_self]
    unfold MAX_EVENTS
    constructor
    · intro h
      omega
    · rintro ⟨h, -⟩
      exact absurd h (Nat.lt_irrefl 0)
  · have := Counter.toNat_sub_one_sub hn
    omega

theorem mem_offsets_iff {L : Log E T} {n : UInt32} :
    n ∈ L.server.offsets ↔ L.behind (some n) < min L.stored.length MAX_EVENTS := by
  have hoffsets : L.server.offsets = Counter.descending (L.next - 1) (min L.stored.length MAX_EVENTS) :=
    L.since_server.offsets
  rw [hoffsets, Counter.mem_descending]
  rfl

/-- The entry after the offset asked from stands as far from the end as the offset is behind. -/
theorem index_of_successor {L : Log E T} {n : UInt32} {i : Nat} (hi : i < L.stored.length) (hheld : L.oldest ≤ i)
    (ho : L.base + UInt32.ofNat i = n + 1) : i = L.stored.length - L.behind (some n) := by
  have hsub : L.next - 1 - n = UInt32.ofNat L.stored.length - UInt32.ofNat i := by
    unfold next
    grind
  have hbehind : L.behind (some n) = L.stored.length - i := by
    rw [behind, hsub, Counter.toNat_sub, UInt32.toNat_ofNat', UInt32.toNat_ofNat']
    unfold oldest MAX_EVENTS at hheld
    omega
  omega

/-- **What the search finds, read off the log**: as many events from its end as the offset asked from is behind, and ten
at the most. -/
theorem search_server (L : Log E T) (last : Option UInt32) :
    L.server.search last = L.entries[L.stored.length - min (L.behind last) MAX_EVENTS]? := by
  cases last with
  | none =>
    rw [Server.search_none, getLast?_items, behind, Nat.min_self]
    rfl
  | some n =>
    by_cases hnext : n + 1 ∈ L.server.offsets
    · obtain ⟨x, hf, hxo⟩ := Server.find?_successor_some hnext
      obtain ⟨i, hi, hheld⟩ := of_mem_items (List.mem_of_find?_eq_some hf)
      have hlt : i < L.stored.length := by
        rw [← length_entries]
        exact (List.getElem?_eq_some_iff.1 hi).1
      have ho : L.base + UInt32.ofNat i = n + 1 := by
        rw [← hxo, (getElem?_entries_iff.1 hi).2]
      have hten := (successor_mem_iff.1 hnext).2
      rw [search_of_next hf, ← hi, index_of_successor hlt hheld ho, Nat.min_eq_left (by omega)]
    · by_cases hn : n ∈ L.server.offsets
      · -- the offset is held and its successor is not: it is the newest
        rw [search_of_newest hnext hn]
        rw [successor_mem_iff] at hnext
        rw [mem_offsets_iff] at hn
        have hnewest : L.behind (some n) = 0 := by omega
        rw [hnewest, Nat.zero_min, Nat.sub_zero, List.getElem?_eq_none (by rw [length_entries])]
      · rw [search_of_absent hnext hn]
        rw [successor_mem_iff] at hnext
        rw [mem_offsets_iff] at hn
        congr 1
        unfold oldest
        unfold MAX_EVENTS at *
        omega

/-- The last offset of the range the server reports. -/
def stop (L : Log E T) : UInt32 := if L.stored.isEmpty then L.base else L.next - 1

/-- Whether the server has a range to report: there has been an event or a reset. -/
def bounded (L : Log E T) : Bool := L.wasReset || !L.stored.isEmpty

theorem end_server {L : Log E T} (h : L.bounded = true) : L.server.end_ = some L.stop := by
  unfold bounded at h
  simp only [server, stop]
  cases hempty : L.stored.isEmpty with
  | false => rfl
  | true =>
    rw [hempty, Bool.not_true, Bool.or_false] at h
    simp [h]

/-- The offset asked from, if any, lies between the ends of the range, as bare numbers. -/
def asks (L : Log E T) : Option UInt32 → Bool
  | none => true
  | some n => decide (L.base ≤ n) && decide (n ≤ L.stop)

/-- What the log gives a request: the whole of it is there, and no search is needed. -/
def maybeEvent (L : Log E T) (last : Option UInt32) (now : T) : Option (EventOf E NoEE × T) :=
  if L.bounded then
    if L.asks last then
      L.entries[L.stored.length - min (L.behind last) MAX_EVENTS]?.map (fun x => (.logged x.1 x.2.1, x.2.2))
    else some (.recovery L.base L.stop, now)
  else none

theorem maybeEvent_server (L : Log E T) (last : Option UInt32) (now : T) :
    L.server.maybeEvent last now = L.maybeEvent last now := by
  unfold maybeEvent
  cases hbounded : L.bounded with
  | false =>
    have hstart : L.server.start = none := if_neg (by unfold bounded at hbounded; rw [hbounded]; decide)
    simp only [Server.maybeEvent, hstart]
    rfl
  | true =>
    rw [if_pos rfl, ← search_server]
    cases last with
    | none =>
      simp only [Server.maybeEvent, start_server hbounded, end_server hbounded, Option.isNone_none, Bool.true_or,
        if_true, asks]
    | some n =>
      have hin : L.server.inRange n = L.asks (some n) := by
        simp only [Server.inRange, start_server hbounded, end_server hbounded, asks]
      rw [Server.maybeEvent_some L.server n now (start_server hbounded) (end_server hbounded), hin]

/-- The log as a machine of its own, to be compared with the server's loop. -/
def step (secsSince : T → T → UInt64) (L : Log E T) :
    Server.Input E T C → Log E T × Option (EventReply (EventOf E NoEE))
  | .request request now => (L, some (eventReply (L.maybeEvent request.lastEventOffset now) (secsSince now)))
  | .push event instant => (L.push event instant, none)
  | .reset draw => (reset draw, none)

theorem step_server (secsSince : T → T → UInt64) (L : Log E T) (i : Server.Input E T C) :
    L.server.step secsSince i = ((L.step secsSince i).1.server, (L.step secsSince i).2) := by
  cases i with
  | request request now =>
    show (L.server, some (eventReply (L.server.maybeEvent request.lastEventOffset now) (secsSince now))) = _
    rw [maybeEvent_server]
    rfl
  | push event instant =>
    rw [Server.step, ← server_push]
    rfl
  | reset draw =>
    rw [Server.step, ← server_reset]
    rfl

/-- **The ten slots and the search answer as the whole log would**: in every run, through resets and wraps, each reply
is the log's event that is as far from the end as the offset asked from is behind, but at most ten from it, with its own
offset and age, or the range of the log for an offset outside it. -/
theorem replies_are_logged (secsSince : T → T → UInt64) (b : UInt32) (inputs : List (Server.Input E T C)) :
    Mealy.outputs (Server.step secsSince) (Server.init b) inputs
      = Mealy.outputs (Log.step secsSince) (Log.init b : Log E T) inputs := by
  rw [← server_init]
  exact Mealy.outputs_refines (step_server secsSince) inputs (init b)

-- twelve events under offsets that wrap: every offset is outside the range, and a client without one is given the third
example : (Mealy.outputs (Log.step (fun now t => UInt64.ofNat (now - t))) (Log.init 4294967290 : Log Event Nat)
    ((List.range 12).map (Server.Input.push Event.someEvent) ++
      [.request (⟨some 3, none⟩ : CommandRequest Command) 20, .request ⟨none, none⟩ 20])).drop 12
    = [some ⟨0, some (.recovery 4294967290 5)⟩, some ⟨18, some (.logged .someEvent 4294967292)⟩] := by decide

end Log
end App
end FlipFlop
