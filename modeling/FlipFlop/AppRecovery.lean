import Mathlib
import FlipFlop.AppClient
import FlipFlop.AppRules
/-!
# AppRecovery — what a client receives after a recovery

A client that is told `Recovery(start, end)` goes on polling from `start`, and the server answers an offset with the
event *after* it.  So the event at `start` is passed over whenever it is still held; and the range check lets `start`
through only while `end` has not wrapped below it.  `recovers_all_iff` says that those are the only two ways to fail.
-/
namespace FlipFlop
namespace App

open Server

variable {E T : Type}

def Seen.event : Seen E → Option (EventOf E NoEE)
  | .received reply => reply.event
  | _ => none

/-- The events of the replies to a client that keeps polling, nothing lost and nothing generated. -/
def eventsSeen (secsSince : T → T → UInt64) (l : Link E T) (nows : List T) : List (Option (EventOf E NoEE)) :=
  (Mealy.outputs (Link.step secsSince) l (nows.map (fun now => .poll now .delivered))).map Seen.event

def Logged (x : Stored E T) : EventOf E NoEE := .logged x.1 x.2.1

/-- However long it polls, the `i`-th reply is the `i`-th oldest event of the history, and no event once there is no
such one. -/
def RecoversAll (secsSince : T → T → UInt64) (s : Server E T) (c : Client) : Prop :=
  ∀ nows : List T, eventsSeen secsSince { server := s, client := c } nows =
    (List.range nows.length).map (fun i => s.events.items.reverse[i]?.map Logged)

variable (secsSince : T → T → UInt64)

theorem eventsSeen_cons (l : Link E T) (now : T) (nows : List T) :
    eventsSeen secsSince l (now :: nows) = (l.server.reply secsSince l.client.request now).event ::
      eventsSeen secsSince
        { server := l.server, client := l.client.receive (l.server.reply secsSince l.client.request now) } nows := rfl

/-! ## The first poll -/

/-- An offset held lies in the range when `start` is below `end` and no longer held. -/
theorem inRange_of_mem {b : UInt32} {m : Nat} {s : Server E T} (h : Since b m s) (hm : 0 < m)
    (hle : b ≤ s.eventOffset - 1) (hb : b ∉ s.offsets) {n : UInt32} (hn : n ∈ s.offsets) : s.inRange n = true := by
  obtain ⟨hs, he⟩ := h.bounds hm
  rw [h.offsets, Counter.mem_descending] at hb hn
  simp only [inRange, hs, he, Bool.and_eq_true, decide_eq_true_eq]
  generalize s.eventOffset - 1 = e at *
  rw [UInt32.le_iff_toNat_le] at hle ⊢
  rw [UInt32.le_iff_toNat_le]
  rw [Counter.toNat_sub] at hb hn
  have := e.toNat_lt
  have := n.toNat_lt
  have := b.toNat_lt
  omega

theorem oldest_of_successor {b : UInt32} {m : Nat} {s : Server E T} (h : Since b m s) (hm : 0 < m)
    (hb : b ∉ s.offsets) (hnext : b + 1 ∈ s.offsets) : s.offsets.getLast? = some (b + 1) := by
  rw [h.getLast?_offsets hm]
  rw [h.offsets, Counter.mem_descending] at hb hnext
  congr 1
  have hstep : (s.eventOffset - 1 - (b + 1)).toNat + 1 = (s.eventOffset - 1 - b).toNat := by
    have hne : b ≠ s.eventOffset - 1 := by
      intro he
      rw [← he, UInt32.sub_self] at hb
      unfold MAX_EVENTS at hb
      exact hb (by show 0 < _; omega)
    have := Counter.toNat_sub_one_sub hne
    rw [← this]
    congr 2
    grind
  have hk : (s.eventOffset - 1 - b).toNat = min m MAX_EVENTS := by omega
  have hof : s.eventOffset - 1 - b = UInt32.ofNat (min m MAX_EVENTS) := by
    rw [← hk, UInt32.ofNat_toNat]
  grind

theorem eq_of_offset_eq {b : UInt32} {m : Nat} {s : Server E T} (h : Since b m s) {x y : Stored E T}
    (hx : x ∈ s.events.items) (hy : y ∈ s.events.items) (hxy : x.2.1 = y.2.1) : x = y := by
  have hnd : (s.events.items.map (fun x => x.2.1)).Nodup := by
    show s.offsets.Nodup
    rw [h.offsets]
    exact Counter.nodup_descending _ _ (by unfold MAX_EVENTS; omega)
  exact List.inj_on_of_nodup_map hnd hx hy hxy

/-- **A client that asks from `start` is given the oldest event** exactly when `start` is not above `end` and is no
longer held. -/
theorem first_poll_iff {b : UInt32} {m : Nat} {s : Server E T} (h : Since b m s) (hm : 0 < m) {C : Type}
    (request : CommandRequest C) (hreq : request.lastEventOffset = some b) (now : T) :
    (s.reply secsSince request now).event = s.events.items.getLast?.map Logged ↔
      b ≤ s.eventOffset - 1 ∧ b ∉ s.offsets := by
  obtain ⟨hs, he⟩ := h.bounds hm
  obtain ⟨y, hy⟩ := Option.ne_none_iff_exists'.1 (fun hn => h.ne_nil hm (List.getLast?_eq_none_iff.1 hn))
  have hyo : s.offsets.getLast? = some y.2.1 := by
    unfold offsets
    rw [List.getLast?_map, hy]; rfl
  have hin : s.inRange b = decide (b ≤ s.eventOffset - 1) := by
    simp [inRange, hs, he]
  rw [h.reply_some hm secsSince hreq, hin, hy]
  by_cases hle : b ≤ s.eventOffset - 1
  · simp only [hle, decide_true, if_true, true_and, search_some h.offsets (Nat.min_le_right _ _)]
    by_cases hnext : b + 1 ∈ s.offsets
    · obtain ⟨x, hx, hxo⟩ := find?_successor_some hnext
      simp only [hx, Option.map_some, Option.some.injEq, Logged, EventOf.logged.injEq]
      constructor
      · rintro ⟨-, heq⟩ hb
        -- the oldest is `b + 1`, so `b` is ten or more below the newest
        rw [h.getLast?_offsets hm, Option.some.injEq] at hyo
        rw [h.offsets, Counter.mem_descending] at hb
        have hof : s.eventOffset - 1 - b = UInt32.ofNat (min m MAX_EVENTS) := by grind
        rw [hof, UInt32.toNat_ofNat'] at hb
        unfold MAX_EVENTS at hb
        omega
      · intro hb
        have hlast := oldest_of_successor h hm hb hnext
        rw [hyo, Option.some.injEq] at hlast
        have hxy := eq_of_offset_eq h (List.mem_of_find?_eq_some hx) (List.mem_of_getLast? hy) (by rw [hxo, hlast])
        rw [hxy]
        exact ⟨rfl, rfl⟩
    · rw [find?_successor_none.2 hnext]
      by_cases hb : b ∈ s.offsets
      · simp [hb]
      · simp [hb, hy, Logged]
  · simp [hle, Logged]

/-! ## The polls after it -/

theorem getLast?_eq_reverse_zero {α : Type} (l : List α) : l.getLast? = l.reverse[0]? := by
  rw [← List.head?_eq_getElem?, List.head?_reverse]

/-- The newest event held has no successor. -/
theorem newest_no_successor {b : UInt32} {m : Nat} {s : Server E T} (h : Since b m s) (hm : 0 < m) {x : Stored E T}
    {down : List (Stored E T)} (hitems : s.events.items = x :: down) : x.2.1 + 1 ∉ s.offsets := by
  have hhead : s.offsets.head? = some x.2.1 := by
    unfold offsets
    rw [hitems]
    rfl
  rw [h.head?_offsets hm, Option.some.injEq] at hhead
  rw [h.offsets, ← hhead]
  exact add_one_not_mem_descending (Nat.min_le_right _ _)

/-- The successor of an event held is the next newer one. -/
theorem find?_successor_of_items {b : UInt32} {m : Nat} {s : Server E T} (h : Since b m s) {x y : Stored E T}
    {newer down : List (Stored E T)} (hitems : s.events.items = newer ++ y :: x :: down) :
    s.events.items.find? (fun z => z.2.1 == x.2.1 + 1) = some y := by
  have hy : y ∈ s.events.items := by rw [hitems]; simp
  have hyo : y.2.1 = x.2.1 + 1 := by
    have hoff : Counter.descending (s.eventOffset - 1) (min m MAX_EVENTS)
        = newer.map (fun x => x.2.1) ++ y.2.1 :: x.2.1 :: down.map (fun x => x.2.1) := by
      rw [← h.offsets]
      unfold offsets
      rw [hitems]
      simp
    exact Counter.descending_neighbours _ _ _ _ _ _ hoff
  obtain ⟨z, hz, hzo⟩ := find?_successor_some (s := s) (n := x.2.1) (List.mem_map.2 ⟨y, hy, hyo⟩)
  rw [hz, eq_of_offset_eq h (List.mem_of_find?_eq_some hz) hy (by rw [hzo, hyo])]

/-- **A client at an event of the history is given every newer one**, oldest first, and then no event. -/
theorem eventsSeen_of_held {b : UInt32} {m : Nat} {s : Server E T} (h : Since b m s) (hm : 0 < m)
    (hin : ∀ n ∈ s.offsets, s.inRange n = true) : ∀ (nows : List T) (c : Client) (up : List (Stored E T))
    (x : Stored E T) (down : List (Stored E T)), s.events.items = up ++ x :: down →
    c.lastEventOffset = some x.2.1 →
    eventsSeen secsSince { server := s, client := c } nows =
      (List.range nows.length).map (fun i => up.reverse[i]?.map Logged)
  | [], _, _, _, _, _, _ => rfl
  | now :: nows, c, up, x, down, hitems, hlast => by
    have hreq : c.request.lastEventOffset = some x.2.1 := hlast
    have hxm : x.2.1 ∈ s.offsets := List.mem_map.2 ⟨x, by rw [hitems]; simp, rfl⟩
    have hreply := h.reply_some hm secsSince hreq now
    rw [if_pos (hin _ hxm), search_some h.offsets (Nat.min_le_right _ _)] at hreply
    rw [eventsSeen_cons, List.length_cons, List.range_succ_eq_map, List.map_cons, List.map_map]
    rcases List.eq_nil_or_concat up with rfl | ⟨newer, y, rfl⟩
    · -- nothing is newer: the client stays where it is
      rw [find?_successor_none.2 (newest_no_successor h hm hitems)] at hreply
      simp only [hxm, if_true, Option.map_none] at hreply
      simp only
      rw [Client.receive_of_none c _ hreply, hreply, eventsSeen_of_held h hm hin nows c [] x down hitems hlast]
      rfl
    · -- `y` is the next newer event
      have hitems' : s.events.items = newer ++ y :: x :: down := by rw [hitems]; simp
      rw [find?_successor_of_items h hitems'] at hreply
      simp only [Option.map_some] at hreply
      have hstep := eventsSeen_of_held h hm hin nows
        (c.receive (s.reply secsSince c.request now)) newer y (x :: down) hitems'
        (Client.receive_logged c _ hreply)
      simp only
      rw [hstep, hreply, List.concat_eq_append, List.reverse_append]
      rfl

/-- The server's `start` is not above its `end`, and the event at `start` has been overwritten. -/
def StartPassed (s : Server E T) : Prop :=
  ∃ start end_, s.start = some start ∧ s.end_ = some end_ ∧ start ≤ end_ ∧ start ∉ s.offsets

theorem Server.Since.startPassed_iff {b : UInt32} {m : Nat} {s : Server E T} (h : Since b m s) (hm : 0 < m) :
    StartPassed s ↔ b ≤ s.eventOffset - 1 ∧ b ∉ s.offsets := by
  obtain ⟨hs, he⟩ := h.bounds hm
  unfold StartPassed
  rw [hs, he]
  constructor
  · rintro ⟨start, end_, hstart, hend, hrest⟩
    cases hstart
    cases hend
    exact hrest
  · intro hrest
    exact ⟨b, _, rfl, rfl, hrest⟩

theorem Server.Since.start_of_recovery {b : UInt32} {m : Nat} {s : Server E T} (h : Since b m s) (hm : 0 < m)
    {C : Type} (request : CommandRequest C) (now : T) {start stop : UInt32}
    (hrec : (s.reply secsSince request now).event = some (.recovery start stop)) : start = b := by
  cases hlast : request.lastEventOffset with
  | none =>
    rw [h.reply_none hm secsSince hlast] at hrec
    cases hg : s.events.items.getLast? <;> rw [hg] at hrec <;> cases hrec
  | some n =>
    rw [h.reply_some hm secsSince hlast] at hrec
    split at hrec
    · cases hf : s.search (some n) <;> rw [hf] at hrec <;> cases hrec
    · cases hrec
      rfl

/-- A client at a `start` that is passed is given the oldest event, and from there every newer one. -/
theorem recoversAll_of_passed {b : UInt32} {m : Nat} {s : Server E T} (h : Since b m s) (hm : 0 < m)
    (hle : b ≤ s.eventOffset - 1) (hb : b ∉ s.offsets) (c : Client) (hlast : c.lastEventOffset = some b) :
    RecoversAll secsSince s c := by
  intro nows
  cases nows with
  | nil => rfl
  | cons now nows =>
    have hgot := (first_poll_iff secsSince h hm c.request hlast now).2 ⟨hle, hb⟩
    rcases List.eq_nil_or_concat s.events.items with hnil | ⟨up, x, hitems⟩
    · exact absurd hnil (h.ne_nil hm)
    · rw [List.concat_eq_append] at hitems
      have hx : s.events.items.getLast? = some x := by rw [hitems, List.getLast?_concat]
      rw [hx] at hgot
      have hstep := eventsSeen_of_held secsSince h hm (fun n hn => inRange_of_mem h hm hle hb hn) nows
        (c.receive (s.reply secsSince c.request now)) up x [] hitems (Client.receive_logged c _ hgot)
      rw [eventsSeen_cons, List.length_cons, List.range_succ_eq_map, List.map_cons, List.map_map]
      simp only
      rw [hstep, hgot, hitems, List.reverse_append]
      rfl

/-- **A recovery brings the whole history** exactly when `start` is not above `end` and its event is no longer
held. -/
theorem recovers_all_iff {s : Server E T} (hs : s.Reachable) (hne : s.events.items ≠ []) (c : Client) (now : T)
    (start stop : UInt32) (hrec : (s.reply secsSince c.request now).event = some (.recovery start stop)) :
    RecoversAll secsSince s (c.receive (s.reply secsSince c.request now)) ↔ StartPassed s := by
  obtain ⟨b, m, h⟩ := hs.since
  have hm := h.pos hne
  obtain rfl := h.start_of_recovery secsSince hm c.request now hrec
  rw [h.startPassed_iff hm]
  have hlast := Client.receive_recovery c _ hrec
  generalize c.receive (s.reply secsSince c.request now) = c' at hlast
  constructor
  · intro hall
    -- one poll tells whether the oldest event is given
    have hone := hall [now]
    rw [eventsSeen_cons] at hone
    refine (first_poll_iff secsSince h hm c'.request hlast now).1 ?_
    rw [getLast?_eq_reverse_zero]
    exact (List.cons.inj hone).1
  · rintro ⟨hle, hb⟩
    exact recoversAll_of_passed secsSince h hm hle hb c' hlast

/-- A client far ahead of the example's server. -/
def exampleClient : Client := { Client.init with lastEventOffset := some 50 }

theorem recovers_all_iff_overrun :
    (exampleServer 0 12).Reachable ∧ StartPassed (exampleServer 0 12) ∧
    RecoversAll (fun now t => UInt64.ofNat (now - t)) (exampleServer 0 12)
      (exampleClient.receive ((exampleServer 0 12).reply (fun now t => UInt64.ofNat (now - t)) exampleClient.request 1)) :=
  have hpassed : StartPassed (exampleServer 0 12) := ⟨0, 11, by decide, by decide, by decide, by decide⟩
  ⟨exampleServer_reachable 0 12, hpassed,
    (recovers_all_iff _ (exampleServer_reachable 0 12) (by decide) exampleClient 1 0 11 (by decide)).2 hpassed⟩

/-- With `start` still held its event is never sent: the client is told `Recovery(3, 4)` and receives event 4 alone. -/
theorem recovery_misses_start :
    (exampleServer 3 2).Reachable ∧
    ((exampleServer 3 2).reply (fun now t => UInt64.ofNat (now - t)) exampleClient.request 1).event
      = some (.recovery 3 4) ∧
    (exampleServer 3 2).offsets = [4, 3] ∧
    eventsSeen (fun now t => UInt64.ofNat (now - t))
      { server := exampleServer 3 2
        client := exampleClient.receive
          ((exampleServer 3 2).reply (fun now t => UInt64.ofNat (now - t)) exampleClient.request 1) } [2, 3, 4]
      = [some (.logged .someEvent 4), none, none] ∧
    ¬ RecoversAll (fun now t => UInt64.ofNat (now - t)) (exampleServer 3 2)
      (exampleClient.receive ((exampleServer 3 2).reply (fun now t => UInt64.ofNat (now - t)) exampleClient.request 1)) := by
  refine ⟨exampleServer_reachable 3 2, by decide, by decide, by decide, ?_⟩
  intro hall
  exact absurd (hall [2]) (by decide)

end App
end FlipFlop
