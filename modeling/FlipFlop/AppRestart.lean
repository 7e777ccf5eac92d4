import FlipFlop.AppDelivery
import FlipFlop.AppInFlight
import FlipFlop.AppRecovery
import FlipFlop.AppShift
/-!
# AppRestart — a server that forgets (`app/examples/server/main.rs`)

A server that starts, and one that resets itself, draws one of ten offsets to begin with, so that a client is likelier to
notice.  How many of the ten a client with a given offset takes for the server it knew is counted exactly
(`undetected_draws`): with more events since, the range is wider and more of them pass; before the first event a server
that has started has no range yet, where one that was reset has.  A client that does notice is told to start from the
offset of the first event, and is answered from the event after it; so the first event after a reset reaches no client
that held an offset at the time (`first_event_never_received`).
-/
namespace FlipFlop
namespace App

open Server

variable {E T : Type}

theorem foldl_push (secsSince : T → T → UInt64) (events : List (E × T)) : ∀ L : Log E T,
    Mealy.run (Log.step (C := Command) secsSince) L (events.map (fun x => .push x.1 x.2))
      = { L with stored := L.stored ++ events } := by
  induction events with
  | nil =>
    intro L
    rw [List.append_nil]
    rfl
  | cons x events ih =>
    intro L
    rw [List.map_cons, Mealy.run]
    refine (ih _).trans ?_
    simp only [Log.step, Log.push, List.append_assoc]
    rfl

/-- A server that follows a log follows it through the events it generates. -/
theorem run_pushes (secsSince : T → T → UInt64) (L : Log E T) (events : List (E × T)) :
    Mealy.run (Server.step (C := Command) secsSince) L.server (events.map (fun x => .push x.1 x.2))
      = ({ L with stored := L.stored ++ events } : Log E T).server := by
  rw [Mealy.run_refines (Log.step_server secsSince), foldl_push]

/-! ## How many draws go undetected -/

/-- Below the wrap, the range is the offsets given since the reset, and the first of them before any was. -/
theorem Log.asks_iff {L : Log E T} (hwrap : L.base.toNat + L.stored.length ≤ 2 ^ 32) {n : UInt32} :
    L.asks (some n) = true ↔ L.base.toNat ≤ n.toNat ∧ n.toNat < L.base.toNat + max L.stored.length 1 := by
  have hstop : L.stop.toNat = L.base.toNat + (max L.stored.length 1 - 1) := by
    unfold Log.stop
    cases hs : L.stored with
    | nil => rfl
    | cons x stored =>
      have hlast : L.next - 1 = L.base + UInt32.ofNat stored.length := by
        unfold Log.next
        rw [hs, List.length_cons, Counter.ofNat_succ]
        grind
      have hlt : stored.length < L.stored.length := by
        rw [hs]
        exact Nat.lt_succ_self _
      rw [List.isEmpty_cons, if_neg (by decide), hlast, Log.toNat_base_add hwrap hlt, List.length_cons]
      omega
  simp only [Log.asks, Bool.and_eq_true, decide_eq_true_eq, UInt32.le_iff_toNat_le, hstop]
  omega

/-- The offset is in the range that a draw starts and `count` events widen. -/
theorem card_draws (n count : Nat) :
    (Finset.univ.filter (fun draw : Fin MAX_EVENTS => draw.val ≤ n ∧ n < draw.val + count)).card
      = min (n + 1) MAX_EVENTS - (n + 1 - count) := by
  have hset : Finset.univ.filter (fun draw : Fin MAX_EVENTS => draw.val ≤ n ∧ n < draw.val + count)
      = (Finset.Ico (n + 1 - count) (min (n + 1) MAX_EVENTS)).attachFin
          (fun d hd => Nat.lt_of_lt_of_le (Finset.mem_Ico.1 hd).2 (Nat.min_le_right _ _)) := by
    ext draw
    have hdraw := draw.isLt
    rw [Finset.mem_filter, Finset.mem_attachFin, Finset.mem_Ico]
    constructor
    · rintro ⟨-, hlow, hhigh⟩
      omega
    · intro hin
      exact ⟨Finset.mem_univ draw, by omega, by omega⟩
  rw [hset, Finset.card_attachFin, Nat.card_Ico]

/-- The draws whose server answers the request with no recovery, once it has generated the events; `drawn` is the server
that has drawn. -/
def undetected (secsSince : T → T → UInt64) (drawn : Fin MAX_EVENTS → Server E T) (events : List (E × T))
    (request : CommandRequest Command) (now : T) : Finset (Fin MAX_EVENTS) :=
  Finset.univ.filter (fun draw =>
    ((Mealy.run (Server.step (C := Command) secsSince) (drawn draw) (events.map (fun x => .push x.1 x.2))).reply
      secsSince request now).event.any EventOf.isRecovery = false)

section Undetected

variable (secsSince : T → T → UInt64) (events : List (E × T)) (hwrap : events.length + MAX_EVENTS ≤ 2 ^ 32)
  (request : CommandRequest Command) {n : UInt32} (hreq : request.lastEventOffset = some n) (now : T)
include hwrap hreq

/-- What passes once there is a range: the draws at or below the offset by less than the range is wide. -/
theorem card_undetected {drawn : Fin MAX_EVENTS → Server E T} {wasReset : Bool}
    (hdrawn : ∀ draw, drawn draw = ({ base := UInt32.ofNat draw, wasReset, stored := [] } : Log E T).server)
    (hrange : (wasReset || !events.isEmpty) = true) :
    (undetected secsSince drawn events request now).card
      = min (n.toNat + 1) MAX_EVENTS - (n.toNat + 1 - max events.length 1) := by
  rw [← card_draws]
  congr 1
  refine Finset.filter_congr (fun draw _ => ?_)
  have hdraw := draw.isLt
  have hbase : (UInt32.ofNat draw).toNat = draw.val := by
    rw [UInt32.toNat_ofNat', Nat.mod_eq_of_lt]
    unfold MAX_EVENTS at hdraw
    omega
  rw [hdrawn, run_pushes, List.nil_append]
  generalize hL : ({ base := UInt32.ofNat draw, wasReset, stored := events } : Log E T) = L
  have hbounded : L.bounded = true := by rw [← hL]; exact hrange
  have hstart := Log.start_server hbounded
  have hend := Log.end_server hbounded
  have hin : L.server.inRange n = L.asks (some n) := by simp only [inRange, hstart, hend, Log.asks]
  have hstored : L.stored = events := by rw [← hL]
  have hLbase : L.base.toNat = draw.val := by rw [← hL]; exact hbase
  have hasks := Log.asks_iff (L := L) (n := n) (by rw [hLbase, hstored]; omega)
  rw [any_isRecovery_reply secsSince L.server request now hreq hstart hend, hin, Bool.not_eq_false', hasks, hLbase,
    hstored]

/-- **How many of the ten draws a client does not notice**: after a reset, in whatever state, those at or below its
offset by less than what has been generated since, or at it if nothing has; after a start the same once an event has
been generated, and all ten before. -/
theorem undetected_draws :
    (∀ s : Server E T, (undetected secsSince s.reset events request now).card
      = min (n.toNat + 1) MAX_EVENTS - (n.toNat + 1 - max events.length 1)) ∧
    (undetected secsSince (fun draw => (Server.init (UInt32.ofNat draw) : Server E T)) events request now).card
      = if events = [] then MAX_EVENTS else min (n.toNat + 1) MAX_EVENTS - (n.toNat + 1 - events.length) := by
  constructor
  · intro s
    exact card_undetected secsSince events hwrap request hreq now
      (fun draw => (Log.server_reset ⟨0, false, []⟩ draw).symm) rfl
  · cases hevents : events with
    | nil => rfl
    | cons x rest =>
      rw [← hevents, if_neg (by rw [hevents]; exact List.cons_ne_nil x rest)]
      have hone : max events.length 1 = events.length := Nat.max_eq_left (by rw [hevents]; exact Nat.succ_pos _)
      have hcard := card_undetected secsSince events hwrap request hreq now
        (fun draw => (Log.server_init (UInt32.ofNat draw)).symm) (by rw [hevents]; rfl)
      rwa [hone] at hcard

end Undetected

/-- After five events, a client at offset 6 takes five of the ten draws for the server it knew. -/
theorem undetected_draws_five_events :
    (undetected (fun now t => UInt64.ofNat (now - t)) (Server.init 0 : Server Event Nat).reset
      (List.replicate 5 (.someEvent, 0)) (⟨some 6, none⟩ : CommandRequest Command) 1).card = 5 ∧
    (undetected (fun now t => UInt64.ofNat (now - t)) (fun draw => (Server.init (UInt32.ofNat draw) : Server Event Nat))
      (List.replicate 5 (.someEvent, 0)) (⟨some 6, none⟩ : CommandRequest Command) 1).card = 5 := by
  obtain ⟨hreset, hstart⟩ := undetected_draws (fun now t => UInt64.ofNat (now - t))
    (List.replicate 5 (Event.someEvent, 0)) (by decide) (⟨some 6, none⟩ : CommandRequest Command) rfl 1
  exact ⟨hreset (Server.init 0), hstart⟩

/-! ## The first event after a reset -/

theorem loggedOffset_eq_some {reply : EventReply (EventOf E NoEE)} {o : UInt32}
    (h : (Seen.received reply).loggedOffset = some o) : ∃ e, reply.event = some (.logged e o) := by
  obtain ⟨ticks, event⟩ := reply
  cases event with
  | none => cases h
  | some event =>
    cases event with
    | logged e offset =>
      cases h
      exact ⟨e, rfl⟩
    | ephemeral event => cases h
    | recovery start stop => cases h

/-- No request with an offset is answered with the first event of the log. -/
theorem Log.reply_ne_base (secsSince : T → T → UInt64) {L : Log E T}
    (hwrap : L.base.toNat + L.stored.length ≤ 2 ^ 32) (request : CommandRequest Command) {n : UInt32}
    (hreq : request.lastEventOffset = some n) (now : T) :
    (Seen.received (L.server.reply secsSince request now)).loggedOffset ≠ some L.base := by
  intro h
  obtain ⟨e, he⟩ := loggedOffset_eq_some h
  rw [Server.reply, Server.eventReply_event, Log.maybeEvent_server, hreq, Log.maybeEvent] at he
  split at he
  · split at he
    · -- the request is in the range, so its client is past some of the log
      rename_i hasks
      obtain ⟨hlow, hhigh⟩ := (Log.asks_iff hwrap).1 hasks
      rw [Option.map_map, Option.map_eq_some_iff] at he
      obtain ⟨⟨e', o, t⟩, hget, hlogged⟩ := he
      have hbase : o = L.base := (EventOf.logged.inj hlogged).2
      obtain ⟨hstored, ho⟩ := Log.getElem?_entries_iff.1 hget
      have hlt := (List.getElem?_eq_some_iff.1 hstored).1
      have hn : n = L.base + UInt32.ofNat (n.toNat - L.base.toNat) := by
        apply UInt32.toNat_inj.1
        rw [Log.toNat_base_add hwrap (by omega)]
        omega
      have hindex : L.stored.length - min (L.behind (offsetAt L.base (n.toNat - L.base.toNat + 1))) MAX_EVENTS = _ :=
        Log.behind_offsetAt hwrap (by omega)
      rw [offsetAt, ← hn] at hindex
      rw [hindex] at hlt ho
      have hnat := Log.toNat_base_add hwrap hlt
      rw [← ho, hbase] at hnat
      omega
    · cases he
  · cases he

/-- A reset does not make its client forget where it was. -/
theorem receive_last_ne_none (c : Client) (reply : EventReply (EventOf E NoEE)) (h : c.lastEventOffset ≠ none) :
    (c.receive reply).lastEventOffset ≠ none := by
  obtain ⟨ticks, event⟩ := reply
  cases event with
  | none => exact h
  | some event =>
    cases event with
    | logged e offset => exact Option.some_ne_none offset
    | ephemeral event => exact h
    | recovery start stop => exact Option.some_ne_none start

theorem first_event_of_log (secsSince : T → T → UInt64) (acts : List (Act E T)) : ∀ (L : Log E T) (c : Client),
    L.base.toNat + (L.stored.length + pushes acts) ≤ 2 ^ 32 → c.lastEventOffset ≠ none →
    ∀ x ∈ Mealy.outputs (Link.step secsSince) { server := L.server, client := c } acts,
      x.loggedOffset ≠ some L.base := by
  induction acts with
  | nil => exact fun _ _ _ _ x hx => absurd hx List.not_mem_nil
  | cons a acts ih =>
    intro L c hwrap hsome x hx
    have hcount : pushes (a :: acts) = pushes [a] + pushes acts := pushes_append [a] acts
    rw [hcount] at hwrap
    rw [Mealy.outputs, List.mem_cons] at hx
    cases a with
    | push event instant =>
      have hone : pushes [Act.push event instant] = 1 := rfl
      rcases hx with rfl | hx
      · exact fun h => by cases h
      · have hpush : (L.push event instant).base = L.base := rfl
        have hlen : (L.push event instant).stored.length = L.stored.length + 1 := List.length_append
        simp only [Link.step, ← Log.server_push] at hx
        exact ih (L.push event instant) c (by rw [hpush, hlen]; omega) hsome x hx
    | poll now fate =>
      have hzero : pushes [Act.poll (E := E) now fate] = 0 := rfl
      rw [hzero, Nat.zero_add] at hwrap
      cases fate with
      | requestLost =>
        rcases hx with rfl | hx
        · exact fun h => by cases h
        · exact ih L c hwrap hsome x hx
      | replyLost =>
        rcases hx with rfl | hx
        · exact fun h => by cases h
        · exact ih L c hwrap hsome x hx
      | delivered =>
        obtain ⟨n, hn⟩ := Option.ne_none_iff_exists'.1 hsome
        rcases hx with rfl | hx
        · exact Log.reply_ne_base secsSince (Nat.le_trans (by omega) hwrap) c.request hn now
        · exact ih L _ hwrap (receive_last_ne_none c _ hsome) x hx

/-- **The first event after a reset reaches no client that held an offset**, whatever was generated and lost since, as
long as the offsets have not come round. -/
theorem first_event_never_received (secsSince : T → T → UInt64) (l : Link E T) (draw : Fin MAX_EVENTS)
    (acts : List (Act E T)) (hsome : l.client.lastEventOffset ≠ none) (hwrap : MAX_EVENTS + pushes acts ≤ 2 ^ 32) :
    ∀ x ∈ Mealy.outputs (Link.step secsSince) { l with server := l.server.reset draw } acts,
      x.loggedOffset ≠ some (UInt32.ofNat draw) := by
  have hreset : l.server.reset draw = (Log.reset draw : Log E T).server :=
    (Log.server_reset ⟨0, false, []⟩ draw).symm
  have hdraw := draw.isLt
  rw [hreset]
  refine first_event_of_log secsSince acts (Log.reset draw) l.client ?_ hsome
  have hbase : (Log.reset draw : Log E T).base.toNat = draw.val := by
    show (UInt32.ofNat draw).toNat = draw.val
    rw [UInt32.toNat_ofNat', Nat.mod_eq_of_lt]
    unfold MAX_EVENTS at hdraw
    omega
  have hempty : (Log.reset draw : Log E T).stored.length = 0 := rfl
  rw [hbase, hempty]
  omega

/-- A client at offset 50 is told of the reset, and then given the second event after it. -/
theorem first_event_never_received_recovered :
    some 4 ∉ (Mealy.outputs (Link.step (fun now t => UInt64.ofNat (now - t)))
        { server := (exampleServer 3 2).reset ⟨4, by decide⟩, client := exampleClient }
        [.push Event.someEvent 0, .push .someEvent 1, .poll 2 .delivered, .poll 3 .delivered]).map
      Seen.loggedOffset := by
  intro hmem
  obtain ⟨x, hx, heq⟩ := List.mem_map.1 hmem
  exact first_event_never_received _ { server := exampleServer 3 2, client := exampleClient } ⟨4, by decide⟩ _
    (by decide) (by decide) x hx heq

end App
end FlipFlop
