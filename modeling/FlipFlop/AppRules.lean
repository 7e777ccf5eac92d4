import FlipFlop.AppServer
/-!
# AppRules — the server against `offset-rules.md`

`offsetRules` is the document's table of responses, read over the history alone.  The server decides by a range check
on `start` and `end` first, and the two agree on a request exactly under `reply_follows_rules_iff`'s condition: `start`
never moves when the history overruns, `start - 1` is outside the range although its successor is held, and the range
compares offsets that wrap.
-/
namespace FlipFlop
namespace App

open Server

variable {E T C : Type}

/-- The response the table gives to offset `n`, over a history held newest first. -/
def offsetRules (history : List (Stored E T)) (n : UInt32) : Option (EventOf E NoEE) :=
  match history.find? (fun x => x.2.1 == n + 1) with
  | some (event, _, _) => some (.logged event (n + 1))
  | none =>
    if n ∈ history.map (fun x => x.2.1) then none
    else
      match (history.map (fun x => x.2.1)).getLast?, (history.map (fun x => x.2.1)).head? with
      | some n0, some n1 => some (.recovery n0 n1)
      | _, _ => none

theorem offsetRules_of_next {s : Server E T} {n : UInt32} {x : Stored E T}
    (hx : s.events.items.find? (fun x => x.2.1 == n + 1) = some x) :
    offsetRules s.events.items n = some (.logged x.1 x.2.1) := by
  have hxo : x.2.1 = n + 1 := by simpa using List.find?_some hx
  simp only [offsetRules, hx, hxo]

theorem offsetRules_of_held {s : Server E T} {n : UInt32} (hnext : n + 1 ∉ s.offsets) (hn : n ∈ s.offsets) :
    offsetRules s.events.items n = none := by
  simp only [offsetRules, find?_successor_none.2 hnext]
  exact if_pos hn

theorem offsetRules_of_absent {b : UInt32} {m : Nat} {s : Server E T} (h : Since b m s) (hm : 0 < m) {n : UInt32}
    (hnext : n + 1 ∉ s.offsets) (hn : n ∉ s.offsets) :
    offsetRules s.events.items n =
      some (.recovery (s.eventOffset - UInt32.ofNat (min m MAX_EVENTS)) (s.eventOffset - 1)) := by
  have hlast := h.getLast?_offsets hm
  have hhead := h.head?_offsets hm
  unfold offsets at hlast hhead hn
  simp only [offsetRules, find?_successor_none.2 hnext, if_neg hn, hlast, hhead]

/-- **Where the server answers as the rules say**: the offset is between `start` and `end` exactly when it or its
successor is held, and, when it is not, `start` is still the oldest offset held. -/
theorem reply_follows_rules_iff {s : Server E T} (hs : s.Reachable) (hne : s.events.items ≠ [])
    (secsSince : T → T → UInt64) (request : CommandRequest C) (n : UInt32) (hreq : request.lastEventOffset = some n)
    (now : T) :
    (s.reply secsSince request now).event = offsetRules s.events.items n ↔
      (s.inRange n = true ↔ n ∈ s.offsets ∨ n + 1 ∈ s.offsets) ∧
      (s.inRange n = false → s.start = s.offsets.getLast?) := by
  obtain ⟨b, m, h⟩ := hs.since
  have hm := h.pos hne
  rw [h.reply_some hm secsSince hreq, (h.bounds hm).1, h.getLast?_offsets hm]
  by_cases hnext : n + 1 ∈ s.offsets
  · obtain ⟨x, hx, -⟩ := find?_successor_some hnext
    rw [offsetRules_of_next hx]
    cases hr : s.inRange n with
    | true => simp [hnext, search_some h.offsets (Nat.min_le_right _ _), hx]
    | false => simp [hnext]
  · by_cases hn : n ∈ s.offsets
    · rw [offsetRules_of_held hnext hn]
      cases hr : s.inRange n with
      | true => simp [hn, search_some h.offsets (Nat.min_le_right _ _), find?_successor_none.2 hnext]
      | false => simp [hn]
    · rw [offsetRules_of_absent h hm hnext hn]
      cases hr : s.inRange n with
      | true =>
        -- neither is held, yet the range check let the offset through: the oldest event is sent
        cases hlast : s.events.items.getLast? with
        | none => exact absurd (List.getLast?_eq_none_iff.1 hlast) hne
        | some x =>
          simp [hn, hnext, search_some h.offsets (Nat.min_le_right _ _), find?_successor_none.2 hnext, hlast]
      | false => simp [hn, hnext]

/-- The example's server after `n` events, started at offset `b`. -/
def exampleServer (b : UInt32) (n : Nat) : Server Event Nat :=
  Mealy.run (step (C := Unit) (fun now t => UInt64.ofNat (now - t))) (init b) (List.replicate n (.push .someEvent 0))

theorem exampleServer_reachable (b : UInt32) (n : Nat) : (exampleServer b n).Reachable :=
  ⟨_, b, _, rfl⟩

def exampleReply (s : Server Event Nat) (n : UInt32) : Option (EventOf Event NoEE) :=
  (s.reply (C := Command) (fun now t => UInt64.ofNat (now - t)) ⟨some n, none⟩ 1).event

theorem reply_follows_rules_iff_up_to_date :
    (exampleServer 3 12).Reachable ∧ (exampleServer 3 12).events.items ≠ [] ∧
    exampleReply (exampleServer 3 12) 4 = offsetRules (exampleServer 3 12).events.items 4 :=
  have hne : (exampleServer 3 12).events.items ≠ [] := by decide
  ⟨exampleServer_reachable 3 12, hne,
    (reply_follows_rules_iff (exampleServer_reachable 3 12) hne _ ⟨some 4, none⟩ 4 rfl 1).2 (by decide)⟩

/-- A started client that asks for the first event, an offset overwritten by an overrun, and a stale `start`. -/
theorem reply_breaks_rules :
    (exampleServer 3 1).Reachable ∧
    (exampleReply (exampleServer 3 1) 2 = some (.recovery 3 3) ∧
      offsetRules (exampleServer 3 1).events.items 2 = some (.logged .someEvent 3)) ∧
    (exampleServer 0 12).Reachable ∧
    (exampleReply (exampleServer 0 12) 0 = some (.logged .someEvent 2) ∧
      offsetRules (exampleServer 0 12).events.items 0 = some (.recovery 2 11)) ∧
    (exampleReply (exampleServer 0 12) 50 = some (.recovery 0 11) ∧
      offsetRules (exampleServer 0 12).events.items 50 = some (.recovery 2 11)) :=
  ⟨exampleServer_reachable 3 1, by decide, exampleServer_reachable 0 12, by decide, by decide⟩

end App
end FlipFlop
