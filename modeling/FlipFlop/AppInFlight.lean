import FlipFlop.AppClient
import FlipFlop.AppLog
import FlipFlop.Polling
/-!
# AppInFlight — requests and replies that take their time (`app/examples/client/main.rs`)

The client waits for a reply for a tenth of a second and polls again a second after it last did, so a reply that is late
is still in its socket when it has asked again.  Here requests and replies wait in queues of any length, each in its
order, and any of them may be lost at any moment.  The client may then be sent one event twice
(`replies_in_order_late_reply`), but until the offsets wrap it is never sent back, and it is never made to pass over an
event that is still held (`replies_in_order`).
-/
namespace FlipFlop
namespace App

variable {E T : Type}

structure InFlight (E T : Type) where
  server : Server E T
  client : Client
  requests : List (CommandRequest Command)
  replies : List (EventReply (EventOf E NoEE))
  deriving Repr, DecidableEq

inductive Move (E T : Type)
  | push (event : E) (instant : T)
  | send
  | serve (now : T)
  | receive
  | loseRequest (i : Nat)
  | loseReply (i : Nat)

namespace InFlight

def init (eventOffset : UInt32) : InFlight E T :=
  { server := Server.init eventOffset, client := Client.init, requests := [], replies := [] }

def step (secsSince : T → T → UInt64) (s : InFlight E T) : Move E T → InFlight E T
  | .push event instant => { s with server := s.server.push event instant }
  | .send => { s with requests := s.requests ++ [s.client.request] }
  | .serve now =>
    match s.requests with
    | [] => s
    | request :: requests => { s with requests, replies := s.replies ++ [s.server.reply secsSince request now] }
  | .receive =>
    match s.replies with
    | [] => s
    | reply :: replies => { s with replies, client := s.client.receive reply }
  | .loseRequest i => { s with requests := s.requests.eraseIdx i }
  | .loseReply i => { s with replies := s.replies.eraseIdx i }

def after (secsSince : T → T → UInt64) (b : UInt32) (moves : List (Move E T)) : InFlight E T :=
  moves.foldl (step secsSince) (init b)

end InFlight

namespace Move

def stored : Move E T → Option (E × T)
  | .push event instant => some (event, instant)
  | _ => none

/-- What a move is to a reader of the log. -/
def action : Move E T → Polling.Action
  | .push _ _ => .append
  | .send => .ask
  | .serve _ => .answer
  | .receive => .read
  | .loseRequest i => .loseRequest i
  | .loseReply i => .loseReply i

end Move

/-- Everything a run generates. -/
def generated (moves : List (Move E T)) : List (E × T) := moves.filterMap Move.stored

/-- The log of a run that is never reset. -/
def Log.of (b : UInt32) (moves : List (Move E T)) : Log E T :=
  { base := b, wasReset := false, stored := generated moves }

/-- The last offset of a client that is past `position` events. -/
def offsetAt (b : UInt32) : Nat → Option UInt32
  | 0 => none
  | position + 1 => some (b + UInt32.ofNat position)

namespace Log

def loggedAt (L : Log E T) (k : Nat) : Option (EventOf E NoEE) := L.entries[k]?.map (fun x => .logged x.1 x.2.1)

theorem loggedAt_push (L : Log E T) (event : E) (instant : T) {k : Nat} (hk : k < L.stored.length) :
    (L.push event instant).loggedAt k = L.loggedAt k := by
  unfold loggedAt
  rw [entries_push, List.getElem?_append_left (by rw [length_entries]; exact hk)]

theorem loggedAt_eq_some {L : Log E T} {k : Nat} {event : EventOf E NoEE} (h : L.loggedAt k = some event) :
    ∃ e t, L.stored[k]? = some (e, t) ∧ event = .logged e (L.base + UInt32.ofNat k) := by
  obtain ⟨⟨e, o, t⟩, hget, rfl⟩ := Option.map_eq_some_iff.1 h
  obtain ⟨hstored, rfl⟩ := getElem?_entries_iff.1 hget
  exact ⟨e, t, hstored, rfl⟩

theorem loggedAt_of_lt {L : Log E T} {k : Nat} (hk : k < L.stored.length) :
    ∃ e, L.loggedAt k = some (.logged e (L.base + UInt32.ofNat k)) := by
  unfold loggedAt
  rw [getElem?_entries, List.getElem?_eq_getElem hk]
  exact ⟨_, rfl⟩

/-- Below the wrap, a client past `position` events is that many short of the end behind. -/
theorem behind_offsetAt {L : Log E T} {position : Nat} (hwrap : L.base.toNat + L.stored.length ≤ 2 ^ 32)
    (hle : position ≤ L.stored.length) :
    L.stored.length - min (L.behind (offsetAt L.base position)) MAX_EVENTS
      = max position (L.stored.length - MAX_EVENTS) := by
  cases position with
  | zero =>
    rw [offsetAt, behind, Nat.min_self, Nat.max_eq_right (Nat.zero_le _)]
  | succ n =>
    have hsub : L.next - 1 - (L.base + UInt32.ofNat n) = UInt32.ofNat L.stored.length - UInt32.ofNat (n + 1) := by
      rw [Counter.ofNat_succ]
      unfold next
      grind
    have hbehind : L.behind (some (L.base + UInt32.ofNat n)) = L.stored.length - (n + 1) := by
      rw [behind, hsub, Counter.toNat_sub, UInt32.toNat_ofNat', UInt32.toNat_ofNat']
      omega
    rw [offsetAt, hbehind]
    omega

theorem toNat_base_add {L : Log E T} (hwrap : L.base.toNat + L.stored.length ≤ 2 ^ 32) {k : Nat}
    (hk : k < L.stored.length) : (L.base + UInt32.ofNat k).toNat = L.base.toNat + k := by
  rw [UInt32.toNat_add, UInt32.toNat_ofNat']
  omega

/-- Below the wrap, the offsets given are the range. -/
theorem asks_offsetAt {L : Log E T} {position : Nat} (hwrap : L.base.toNat + L.stored.length ≤ 2 ^ 32)
    (hle : position ≤ L.stored.length) : L.asks (offsetAt L.base position) = true := by
  cases position with
  | zero => rfl
  | succ n =>
    have hn := toNat_base_add hwrap hle
    have hstop : L.stop = L.base + UInt32.ofNat (L.stored.length - 1) := by
      have hlast : L.stored.length = L.stored.length - 1 + 1 := by omega
      have hnonempty : L.stored.isEmpty = false := by
        cases hs : L.stored with
        | nil => rw [hs] at hle; cases hle
        | cons x stored => rfl
      unfold stop next
      rw [hnonempty, hlast, Counter.ofNat_succ, Nat.add_sub_cancel]
      show L.base + (UInt32.ofNat (L.stored.length - 1) + 1) - 1 = _
      grind
    have hend := toNat_base_add hwrap (show L.stored.length - 1 < L.stored.length by omega)
    simp only [offsetAt, asks, hstop, Bool.and_eq_true, decide_eq_true_eq, UInt32.le_iff_toNat_le]
    omega

/-- **Below the wrap a request is answered with the event at its client's position**, or the oldest held if that one is
gone, and with none if it has not been generated. -/
theorem reply_offsetAt {L : Log E T} (secsSince : T → T → UInt64) {position : Nat}
    (hwrap : L.base.toNat + L.stored.length ≤ 2 ^ 32) (hle : position ≤ L.stored.length) {C : Type}
    (request : CommandRequest C) (hreq : request.lastEventOffset = offsetAt L.base position) (now : T) :
    (L.server.reply secsSince request now).event
      = (Polling.answerTo MAX_EVENTS L.stored.length position).bind L.loggedAt := by
  have hindex : L.entries[max position (L.stored.length - MAX_EVENTS)]?.map (fun x => EventOf.logged x.1 x.2.1)
      = (Polling.answerTo MAX_EVENTS L.stored.length position).bind L.loggedAt := by
    unfold Polling.answerTo
    split
    · rfl
    · rw [List.getElem?_eq_none (by rw [length_entries]; omega)]
      rfl
  rw [Server.reply, Server.eventReply_event, maybeEvent_server, hreq, maybeEvent, asks_offsetAt hwrap hle, if_pos rfl,
    behind_offsetAt hwrap hle]
  split
  · rw [Option.map_map]
    exact hindex
  · -- nothing has been generated at all
    rename_i hbounded
    have hempty : L.stored = [] := by
      unfold bounded at hbounded
      simp at hbounded
      exact hbounded.2
    unfold Polling.answerTo
    rw [hempty]
    rfl

end Log

/-! ## The queues follow a reader of the log -/

/-- The system seen as a reader of the log `L` in the state `s`. -/
structure Mirrors (L : Log E T) (s : Polling.State) (f : InFlight E T) : Prop where
  server : f.server = L.server
  size : s.size = L.stored.length
  last : f.client.lastEventOffset = offsetAt L.base s.position
  requests : f.requests.map CommandRequest.lastEventOffset = s.requests.map (offsetAt L.base)
  replies : f.replies.map EventReply.event = s.replies.map (fun r => r.bind L.loggedAt)

theorem receive_last {c : Client} {L : Log E T} {position : Nat} (hlast : c.lastEventOffset = offsetAt L.base position)
    {reply : EventReply (EventOf E NoEE)} {r : Option Nat} (hreply : reply.event = r.bind L.loggedAt)
    (hr : ∀ k, r = some k → k < L.stored.length) :
    (c.receive reply).lastEventOffset = offsetAt L.base (Polling.positionAfter position r) := by
  cases r with
  | none =>
    rw [Client.receive_of_none c reply hreply]
    exact hlast
  | some k =>
    obtain ⟨e, he⟩ := Log.loggedAt_of_lt (hr k rfl)
    exact Client.receive_logged c reply (hreply.trans he)

section Step

variable {L : Log E T} {s : Polling.State} {f : InFlight E T} (h : Mirrors L s f) (secsSince : T → T → UInt64)
include h

/-- What is on its way stays what it is when an event is stored. -/
theorem Mirrors.push (hs : Polling.Orderly MAX_EVENTS s) (event : E) (instant : T) :
    Mirrors (L.push event instant) (Polling.step MAX_EVENTS s .append) (f.step secsSince (.push event instant)) := by
  refine ⟨?_, ?_, h.last, h.requests, ?_⟩
  · rw [Log.server_push, ← h.server]
    rfl
  · show s.size + 1 = (L.stored ++ [(event, instant)]).length
    rw [h.size, List.length_append]
    rfl
  · show f.replies.map EventReply.event = s.replies.map (fun r => r.bind (L.push event instant).loggedAt)
    rw [h.replies]
    apply List.map_congr_left
    intro r hr
    cases r with
    | none => rfl
    | some k =>
      have hk := hs.coming_lt k (List.mem_filterMap.2 ⟨some k, hr, rfl⟩)
      rw [h.size] at hk
      exact (L.loggedAt_push event instant hk).symm

/-- The oldest request is answered with the event at the position it was sent from. -/
theorem Mirrors.serve (hs : Polling.Orderly MAX_EVENTS s) (hwrap : L.base.toNat + L.stored.length ≤ 2 ^ 32) (now : T) :
    Mirrors L (Polling.step MAX_EVENTS s .answer) (f.step secsSince (.serve now)) := by
  obtain ⟨hserver, hsize, hlast, hrequests, hreplies⟩ := h
  cases hf : f.requests with
  | nil =>
    rw [hf] at hrequests
    have hnil : s.requests = [] := List.map_eq_nil_iff.1 hrequests.symm
    simp only [InFlight.step, Polling.step, hf, hnil]
    exact ⟨hserver, hsize, hlast, by rw [hf, hnil]; rfl, hreplies⟩
  | cons request requests =>
    rw [hf, List.map_cons] at hrequests
    obtain ⟨q, qs, hqs, hq, hrest⟩ := List.map_eq_cons_iff.1 hrequests.symm
    have hle : q ≤ L.stored.length := by
      have hmem : q ∈ s.requests := by
        rw [hqs]
        exact List.mem_cons_self
      rw [← hsize]
      exact Nat.le_trans (hs.requests_le q hmem) hs.position_le_size
    simp only [InFlight.step, Polling.step, hf, hqs]
    refine ⟨hserver, hsize, hlast, hrest.symm, ?_⟩
    show (f.replies ++ [f.server.reply secsSince request now]).map EventReply.event = _
    rw [List.map_append, List.map_append, hreplies, hserver, hsize]
    exact congrArg (fun x => s.replies.map (fun r => r.bind L.loggedAt) ++ [x])
      (Log.reply_offsetAt secsSince hwrap hle request hq.symm now)

/-- The oldest reply takes the client where it takes the reader. -/
theorem Mirrors.receive (hs : Polling.Orderly MAX_EVENTS s) :
    Mirrors L (Polling.step MAX_EVENTS s .read) (f.step secsSince .receive) := by
  obtain ⟨hserver, hsize, hlast, hrequests, hreplies⟩ := h
  cases hf : f.replies with
  | nil =>
    rw [hf] at hreplies
    have hnil : s.replies = [] := List.map_eq_nil_iff.1 hreplies.symm
    simp only [InFlight.step, Polling.step, hf, hnil]
    exact ⟨hserver, hsize, hlast, hrequests, by rw [hf, hnil]; rfl⟩
  | cons reply replies =>
    rw [hf, List.map_cons] at hreplies
    obtain ⟨r, rs, hrs, hr, hrest⟩ := List.map_eq_cons_iff.1 hreplies.symm
    simp only [InFlight.step, Polling.step, hf, hrs]
    refine ⟨hserver, hsize, receive_last hlast hr.symm ?_, hrequests, hrest.symm⟩
    rintro k rfl
    rw [← hsize]
    exact hs.coming_lt k (List.mem_filterMap.2 ⟨some k, by rw [hrs]; exact List.mem_cons_self, rfl⟩)

/-- **Every move is a step of the reader**, over the log with what the move stores. -/
theorem Mirrors.step (hs : Polling.Orderly MAX_EVENTS s) (hwrap : L.base.toNat + L.stored.length ≤ 2 ^ 32)
    (move : Move E T) :
    Mirrors { L with stored := L.stored ++ move.stored.toList } (Polling.step MAX_EVENTS s move.action)
      (f.step secsSince move) := by
  cases hmove : move.stored with
  | some x =>
    cases move with
    | push event instant =>
      cases hmove
      exact h.push secsSince hs event instant
    | send | serve | receive | loseRequest | loseReply => cases hmove
  | none =>
    rw [Option.toList_none, List.append_nil]
    cases move with
    | push => cases hmove
    | send =>
      refine ⟨h.server, h.size, h.last, ?_, h.replies⟩
      show (f.requests ++ [f.client.request]).map CommandRequest.lastEventOffset = (s.requests ++ [s.position]).map _
      rw [List.map_append, List.map_append, h.requests]
      exact congrArg (fun x => s.requests.map (offsetAt L.base) ++ [x]) h.last
    | serve now => exact h.serve secsSince hs hwrap now
    | receive => exact h.receive secsSince hs
    | loseRequest i =>
      refine ⟨h.server, h.size, h.last, ?_, h.replies⟩
      show (f.requests.eraseIdx i).map CommandRequest.lastEventOffset = (s.requests.eraseIdx i).map (offsetAt L.base)
      rw [← List.eraseIdx_map, ← List.eraseIdx_map, h.requests]
    | loseReply i =>
      refine ⟨h.server, h.size, h.last, h.requests, ?_⟩
      show (f.replies.eraseIdx i).map EventReply.event = (s.replies.eraseIdx i).map (fun r => r.bind L.loggedAt)
      rw [← List.eraseIdx_map, ← List.eraseIdx_map, h.replies]

end Step

theorem generated_concat (moves : List (Move E T)) (move : Move E T) :
    generated (moves ++ [move]) = generated moves ++ move.stored.toList := by
  unfold generated
  rw [List.filterMap_append]
  cases h : move.stored <;> simp [h]

/-- **Every run below the wrap is a reader's run over the log.** -/
theorem mirrors_run (secsSince : T → T → UInt64) (b : UInt32) (moves : List (Move E T))
    (hwrap : b.toNat + (generated moves).length ≤ 2 ^ 32) :
    Mirrors (Log.of b moves) (Polling.run MAX_EVENTS (moves.map Move.action)) (InFlight.after secsSince b moves) := by
  induction moves using List.reverseRecOn with
  | nil => exact ⟨(Log.server_init b).symm, rfl, rfl, rfl, rfl⟩
  | append_singleton moves move ih =>
    have hgen := generated_concat moves move
    have hwrap' : b.toNat + (generated moves).length ≤ 2 ^ 32 := by
      rw [hgen, List.length_append] at hwrap
      omega
    have hlog : Log.of b (moves ++ [move])
        = { Log.of b moves with stored := (Log.of b moves).stored ++ move.stored.toList } := by
      rw [Log.of, hgen]
      rfl
    have hstep := (ih hwrap').step secsSince (Polling.orderly_run MAX_EVENTS _) hwrap' move
    rw [← hlog] at hstep
    unfold Polling.run InFlight.after at hstep ⊢
    rw [List.map_append, List.foldl_append, List.foldl_append]
    exact hstep

/-! ## What reaches the client -/

/-- An offset held is that of one of the last ten events generated. -/
theorem Log.of_mem_offsets {L : Log E T} {o : UInt32} (h : o ∈ L.server.offsets) :
    ∃ i, i < L.stored.length ∧ L.stored.length - MAX_EVENTS ≤ i ∧ o = L.base + UInt32.ofNat i := by
  obtain ⟨⟨e, o', t⟩, hx, rfl⟩ := List.mem_map.1 h
  obtain ⟨i, hi, hheld⟩ := Log.of_mem_items hx
  obtain ⟨hstored, ho⟩ := Log.getElem?_entries_iff.1 hi
  exact ⟨i, (List.getElem?_eq_some_iff.1 hstored).1, hheld, ho⟩

section Reader

variable {L : Log E T} {s : Polling.State} {f : InFlight E T}

/-- A reply on its way has no event, or the event of an entry on its way to the reader. -/
theorem Mirrors.event_of_mem (hm : Mirrors L s f) (ho : Polling.Orderly MAX_EVENTS s)
    {reply : EventReply (EventOf E NoEE)} (hreply : reply ∈ f.replies) :
    reply.event = none ∨ ∃ k ∈ s.coming, ∃ e t, L.stored[k]? = some (e, t) ∧
      reply.event = some (.logged e (L.base + UInt32.ofNat k)) := by
  have hevent : reply.event ∈ s.replies.map (fun r => r.bind L.loggedAt) := by
    rw [← hm.replies]
    exact List.mem_map_of_mem hreply
  obtain ⟨r, hr, hrevent⟩ := List.mem_map.1 hevent
  cases r with
  | none => exact .inl hrevent.symm
  | some k =>
    have hk : k ∈ s.coming := List.mem_filterMap.2 ⟨some k, hr, rfl⟩
    obtain ⟨e, he⟩ := Log.loggedAt_of_lt (hm.size ▸ ho.coming_lt k hk)
    obtain ⟨e', t, hstored, he'⟩ := Log.loggedAt_eq_some he
    cases he'
    exact .inr ⟨k, hk, e, t, hstored, hrevent.symm.trans he⟩

/-- A client past an event has been given it. -/
theorem Mirrors.position_of_last (hm : Mirrors L s f) (ho : Polling.Orderly MAX_EVENTS s) {n : UInt32}
    (hn : f.client.lastEventOffset = some n) :
    ∃ p, s.position = p + 1 ∧ p < L.stored.length ∧ n = L.base + UInt32.ofNat p := by
  have hsize := ho.position_le_size
  rw [hm.size] at hsize
  rw [hm.last] at hn
  cases hp : s.position with
  | zero =>
    rw [hp] at hn
    cases hn
  | succ p =>
    rw [hp, offsetAt, Option.some.injEq] at hn
    exact ⟨p, rfl, by omega, hn.symm⟩

theorem Mirrors.last_le_coming (hm : Mirrors L s f) (ho : Polling.Orderly MAX_EVENTS s)
    (hwrap : L.base.toNat + L.stored.length ≤ 2 ^ 32) {k : Nat} (hk : k ∈ s.coming) {n : UInt32}
    (hn : f.client.lastEventOffset = some n) : n ≤ L.base + UInt32.ofNat k := by
  obtain ⟨p, hp, hplt, rfl⟩ := hm.position_of_last ho hn
  have hlt := ho.coming_lt k hk
  rw [hm.size] at hlt
  have hback := ho.position_le_coming k hk
  rw [UInt32.le_iff_toNat_le, Log.toNat_base_add hwrap hplt, Log.toNat_base_add hwrap hlt]
  omega

theorem Mirrors.coming_le_held (hm : Mirrors L s f) (ho : Polling.Orderly MAX_EVENTS s)
    (hwrap : L.base.toNat + L.stored.length ≤ 2 ^ 32) {k : Nat} (hk : k ∈ s.coming) {o : UInt32}
    (hheld : o ∈ f.server.offsets) (hlater : ∀ n, f.client.lastEventOffset = some n → n < o) :
    L.base + UInt32.ofNat k ≤ o := by
  rw [hm.server] at hheld
  obtain ⟨i, hi, hlow, rfl⟩ := Log.of_mem_offsets hheld
  have hlt := ho.coming_lt k hk
  have hahead := ho.coming_le_position k hk
  have hsize := ho.position_le_size
  rw [hm.size] at hlt hahead hsize
  -- the event held is one the client has not been given
  have hpast : s.position ≤ i := by
    cases hp : s.position with
    | zero => exact Nat.zero_le i
    | succ p =>
      have hplt : p < L.stored.length := by omega
      have hn := hlater (L.base + UInt32.ofNat p) (by rw [hm.last, hp]; rfl)
      rw [UInt32.lt_iff_toNat_lt, Log.toNat_base_add hwrap hplt, Log.toNat_base_add hwrap hi] at hn
      omega
  rw [UInt32.le_iff_toNat_le, Log.toNat_base_add hwrap hlt, Log.toNat_base_add hwrap hi]
  omega

end Reader

/-- **No reply takes the client back or past an event still held**, as long as the offsets do not wrap: each reply on its
way, whatever was lost or late and however far the history was overrun, has no event or is one of those generated, under
its own offset, at or after the client's last one, and before every later one the server still holds. -/
theorem replies_in_order (secsSince : T → T → UInt64) (b : UInt32) (moves : List (Move E T))
    (hwrap : b.toNat + (generated moves).length ≤ 2 ^ 32) (reply : EventReply (EventOf E NoEE))
    (hreply : reply ∈ (InFlight.after secsSince b moves).replies) :
    reply.event = none ∨ ∃ (k : Nat) (e : E) (t : T), (generated moves)[k]? = some (e, t) ∧
      reply.event = some (.logged e (b + UInt32.ofNat k)) ∧
      (∀ n, (InFlight.after secsSince b moves).client.lastEventOffset = some n → n ≤ b + UInt32.ofNat k) ∧
      ∀ o ∈ (InFlight.after secsSince b moves).server.offsets,
        (∀ n, (InFlight.after secsSince b moves).client.lastEventOffset = some n → n < o) → b + UInt32.ofNat k ≤ o := by
  have hm := mirrors_run secsSince b moves hwrap
  have ho := Polling.orderly_run MAX_EVENTS (moves.map Move.action)
  rcases hm.event_of_mem ho hreply with hnone | ⟨k, hk, e, t, hstored, hlogged⟩
  · exact .inl hnone
  · exact .inr ⟨k, e, t, hstored, hlogged, fun n hn => hm.last_le_coming ho hwrap hk hn,
      fun o hheld hlater => hm.coming_le_held ho hwrap hk hheld hlater⟩

/-- A client that asks twice before the first reply arrives. -/
def exampleMoves : List (Move Event Nat) :=
  [.push .someEvent 0, .send, .send, .serve 1, .push .someEvent 2, .serve 3, .receive]

/-- The event it has been given is on its way to it once more. -/
theorem replies_in_order_late_reply :
    (InFlight.after (fun now t => UInt64.ofNat (now - t)) 3 exampleMoves).client.lastEventOffset = some 3 ∧
    ∃ (k : Nat) (e : Event) (t : Nat), (generated exampleMoves)[k]? = some (e, t) ∧
      (some (.logged .someEvent 3) : Option (EventOf Event NoEE)) = some (.logged e (3 + UInt32.ofNat k)) := by
  refine ⟨by decide, ?_⟩
  rcases replies_in_order (fun now t => UInt64.ofNat (now - t)) 3 exampleMoves (by decide)
    ⟨3, some (.logged .someEvent 3)⟩ (by decide) with hnone | ⟨k, e, t, hstored, hlogged, -⟩
  · cases hnone
  · exact ⟨k, e, t, hstored, hlogged⟩

end App
end FlipFlop
