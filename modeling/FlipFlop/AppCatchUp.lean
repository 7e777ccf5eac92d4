import FlipFlop.AppDelivery
import FlipFlop.AppInFlight
import FlipFlop.AppRecovery
/-!
# AppCatchUp — a client that is behind

The history holds ten events and tells no one of those it drops, so a client that has been away finds the oldest one
held and goes on from there.  Once nothing more is generated, however long it was away and whatever was lost before,
each poll that goes through brings the next event held beyond the client's last one, until there is none
(`catches_up`).  The offsets are taken to be below the wrap; past it the range is empty and every poll is a recovery.
-/
namespace FlipFlop
namespace App

open Server

variable {E T : Type}

/-! ## A poll is a message each way -/

def Act.moves : Act E T → List (Move E T)
  | .push event instant => [.push event instant]
  | .poll _ .requestLost => [.send, .loseRequest 0]
  | .poll now .replyLost => [.send, .serve now, .loseReply 0]
  | .poll now .delivered => [.send, .serve now, .receive]

def Link.inFlight (l : Link E T) : InFlight E T :=
  { server := l.server, client := l.client, requests := [], replies := [] }

theorem moves_step (secsSince : T → T → UInt64) (l : Link E T) (a : Act E T) :
    a.moves.foldl (InFlight.step secsSince) l.inFlight = (l.step secsSince a).1.inFlight := by
  cases a with
  | push event instant => rfl
  | poll now fate => cases fate <;> rfl

/-- A run of polls is a run of messages, one at a time. -/
theorem after_inFlight (secsSince : T → T → UInt64) (b : UInt32) (acts : List (Act E T)) :
    InFlight.after secsSince b (acts.flatMap Act.moves) = (after secsSince b acts).inFlight := by
  induction acts using List.reverseRecOn with
  | nil => rfl
  | append_singleton acts a ih =>
    rw [List.flatMap_append, List.flatMap_singleton, after_concat, ← moves_step, ← ih]
    exact List.foldl_append

theorem length_generated_moves (acts : List (Act E T)) : (generated (acts.flatMap Act.moves)).length = pushes acts := by
  induction acts using List.reverseRecOn with
  | nil => rfl
  | append_singleton acts a ih =>
    rw [List.flatMap_append, List.flatMap_singleton, generated, List.filterMap_append, List.length_append, pushes_append]
    congr 1
    cases a with
    | push event instant => rfl
    | poll now fate => cases fate <;> rfl

/-- The log of everything a run of the link generates. -/
def Log.ofActs (b : UInt32) (acts : List (Act E T)) : Log E T := Log.of b (acts.flatMap Act.moves)

/-- Below the wrap, the client is past some of the log, and the server holds the end of it. -/
theorem after_position (secsSince : T → T → UInt64) (b : UInt32) (acts : List (Act E T))
    (hwrap : b.toNat + pushes acts ≤ 2 ^ 32) :
    (after secsSince b acts).server = (Log.ofActs b acts).server ∧
    ∃ p, p ≤ (Log.ofActs b acts).stored.length ∧
      (after secsSince b acts).client.lastEventOffset = offsetAt (Log.ofActs b acts).base p := by
  rw [← length_generated_moves] at hwrap
  have hm := mirrors_run secsSince b (acts.flatMap Act.moves) hwrap
  have ho := Polling.orderly_run MAX_EVENTS ((acts.flatMap Act.moves).map Move.action)
  rw [after_inFlight] at hm
  refine ⟨hm.server, _, ?_, hm.last⟩
  have hsize := ho.position_le_size
  rwa [hm.size] at hsize

/-! ## What a client that is behind receives -/

def Seen.logged : Seen E → Option (EventOf E NoEE)
  | .received ⟨_, some (.logged event offset)⟩ => some (.logged event offset)
  | _ => none

def Act.isDelivered : Act E T → Bool
  | .poll _ .delivered => true
  | _ => false

/-- The offset is beyond the last one a client has been given. -/
def beyond (last : Option UInt32) (offset : UInt32) : Bool := last.all (fun n => decide (n < offset))

/-- The events received over some turns. -/
def received (secsSince : T → T → UInt64) (l : Link E T) (acts : List (Act E T)) : List (EventOf E NoEE) :=
  (Mealy.outputs (Link.step secsSince) l acts).filterMap Seen.logged

/-- Keeping what comes at or after a place is dropping what comes before it. -/
theorem filter_eq_drop {α : Type} {p : α → Bool} : ∀ (l : List α) (n : Nat),
    (∀ i x, l[i]? = some x → (p x = true ↔ n ≤ i)) → l.filter p = l.drop n
  | [], n, _ => by rw [List.filter_nil, List.drop_nil]
  | x :: l, n, h => by
    have hx := h 0 x rfl
    cases n with
    | zero =>
      have hall := filter_eq_drop l 0 (fun i y hy => by simpa using h (i + 1) y hy)
      rw [List.filter_cons_of_pos (hx.2 (Nat.le_refl 0)), hall]
      rfl
    | succ n =>
      have hrest := filter_eq_drop l n (fun i y hy => by simpa using h (i + 1) y hy)
      rw [List.filter_cons_of_neg (fun hp => absurd (hx.1 hp) (Nat.not_succ_le_zero n)), hrest]
      rfl

/-- The events held beyond a client's last one are those of the log from its position on. -/
theorem Log.filter_beyond {L : Log E T} (hwrap : L.base.toNat + L.stored.length ≤ 2 ^ 32) {p : Nat}
    (hp : p ≤ L.stored.length) :
    L.server.events.items.reverse.filter (fun x => beyond (offsetAt L.base p) x.2.1)
      = L.entries.drop (max p (L.stored.length - MAX_EVENTS)) := by
  rw [Log.items_server, List.reverse_reverse, filter_eq_drop _ (p - L.oldest), List.drop_drop]
  · congr 1
    unfold Log.oldest
    omega
  · rintro i ⟨e, o, t⟩ hi
    rw [List.getElem?_drop] at hi
    obtain ⟨hstored, rfl⟩ := Log.getElem?_entries_iff.1 hi
    have hlt := (List.getElem?_eq_some_iff.1 hstored).1
    cases p with
    | zero => simp [offsetAt, beyond]
    | succ p =>
      simp only [offsetAt, beyond, Option.all_some, decide_eq_true_eq, UInt32.lt_iff_toNat_lt,
        Log.toNat_base_add hwrap hlt, Log.toNat_base_add hwrap hp]
      omega

theorem received_cons (secsSince : T → T → UInt64) (l : Link E T) (a : Act E T) (acts : List (Act E T)) :
    received secsSince l (a :: acts)
      = ((l.step secsSince a).2.logged).toList ++ received secsSince (l.step secsSince a).1 acts := by
  unfold received
  rw [Mealy.outputs, List.filterMap_cons]
  cases (l.step secsSince a).2.logged <;> rfl

/-- A poll that goes through brings the event at the client's position, or the oldest held. -/
theorem step_delivered (secsSince : T → T → UInt64) {L : Log E T} {l : Link E T} {p : Nat}
    (hwrap : L.base.toNat + L.stored.length ≤ 2 ^ 32) (hp : p ≤ L.stored.length) (hserver : l.server = L.server)
    (hlast : l.client.lastEventOffset = offsetAt L.base p) (now : T) :
    (l.step secsSince (.poll now .delivered)).1.server = L.server ∧
    (l.step secsSince (.poll now .delivered)).1.client.lastEventOffset
      = offsetAt L.base (Polling.positionAfter p (Polling.answerTo MAX_EVENTS L.stored.length p)) ∧
    (l.step secsSince (.poll now .delivered)).2.logged
      = (Polling.answerTo MAX_EVENTS L.stored.length p).bind L.loggedAt := by
  have hreply := Log.reply_offsetAt secsSince hwrap hp l.client.request hlast now
  rw [← hserver] at hreply
  refine ⟨hserver, receive_last hlast hreply (fun k hk => (Polling.answerTo_eq_some.1 hk).2), ?_⟩
  rw [← hreply]
  show Seen.logged (.received (l.server.reply secsSince l.client.request now)) = _
  generalize l.server.reply secsSince l.client.request now = reply at hreply
  obtain ⟨ticks, event⟩ := reply
  cases hr : (Polling.answerTo MAX_EVENTS L.stored.length p).bind L.loggedAt with
  | none =>
    rw [hr] at hreply
    cases hreply
    rfl
  | some event =>
    rw [hr] at hreply
    cases hreply
    obtain ⟨k, -, hk⟩ := Option.bind_eq_some_iff.1 hr
    obtain ⟨e, t, -, rfl⟩ := Log.loggedAt_eq_some hk
    rfl

/-- **From any position, the polls that go through bring what the log holds from there on, one event each.** -/
theorem received_of_position (secsSince : T → T → UInt64) {L : Log E T}
    (hwrap : L.base.toNat + L.stored.length ≤ 2 ^ 32) : ∀ (acts : List (Act E T)), (∀ a ∈ acts, a.isPush = false) →
    ∀ (l : Link E T) (p : Nat), p ≤ L.stored.length → l.server = L.server →
      l.client.lastEventOffset = offsetAt L.base p →
      received secsSince l acts
        = ((L.entries.drop (max p (L.stored.length - MAX_EVENTS))).take (acts.countP Act.isDelivered)).map Logged
  | [], _, _, _, _, _, _ => rfl
  | a :: acts, hpolls, l, p, hp, hserver, hlast => by
    have hrest := received_of_position secsSince hwrap acts (fun c hc => hpolls c (List.mem_cons_of_mem a hc))
    rw [received_cons]
    cases a with
    | push event instant => cases hpolls _ List.mem_cons_self
    | poll now fate =>
      cases fate with
      | requestLost => exact hrest l p hp hserver hlast
      | replyLost => exact hrest _ p hp hserver hlast
      | delivered =>
        obtain ⟨hserver', hlast', hseen⟩ := step_delivered secsSince hwrap hp hserver hlast now
        rw [List.countP_cons_of_pos rfl, hseen]
        generalize (l.step secsSince (.poll now .delivered)).1 = l' at hserver' hlast' ⊢
        by_cases hk : max p (L.stored.length - MAX_EVENTS) < L.stored.length
        · -- there is an event at the position, and the client is past it afterwards
          have hanswer : Polling.answerTo MAX_EVENTS L.stored.length p = some (max p (L.stored.length - MAX_EVENTS)) :=
            if_pos hk
          rw [hanswer, Polling.positionAfter] at hlast'
          have hnext := hrest l' _ hk hserver' hlast'
          have hmax : max (max p (L.stored.length - MAX_EVENTS) + 1) (L.stored.length - MAX_EVENTS)
              = max p (L.stored.length - MAX_EVENTS) + 1 := by omega
          have hlt : max p (L.stored.length - MAX_EVENTS) < L.entries.length := by
            rw [Log.length_entries]
            exact hk
          rw [hnext, hmax, List.drop_eq_getElem_cons hlt, List.take_succ_cons, List.map_cons, hanswer, Option.bind_some,
            Log.loggedAt, List.getElem?_eq_getElem hlt]
          rfl
        · have hanswer : Polling.answerTo MAX_EVENTS L.stored.length p = none := if_neg hk
          rw [hanswer, Polling.positionAfter] at hlast'
          have hnil : L.entries.drop (max p (L.stored.length - MAX_EVENTS)) = [] :=
            List.drop_of_length_le (by rw [Log.length_entries]; omega)
          rw [hrest l' p hp hserver' hlast', hanswer, hnil]
          simp

/-- **A client that is behind catches up**, as long as the offsets have not wrapped: once nothing more is generated, the
polls that go through bring the events held beyond its last one, oldest first, one each, whatever was lost or overrun
before. -/
theorem catches_up (secsSince : T → T → UInt64) (b : UInt32) (before polls : List (Act E T))
    (hwrap : b.toNat + pushes before ≤ 2 ^ 32) (hpolls : ∀ a ∈ polls, a.isPush = false) :
    received secsSince (after secsSince b before) polls =
      (((after secsSince b before).server.events.items.reverse.filter
        (fun x => beyond (after secsSince b before).client.lastEventOffset x.2.1)).take
          (polls.countP Act.isDelivered)).map Logged := by
  obtain ⟨hserver, p, hp, hlast⟩ := after_position secsSince b before hwrap
  have hwrapL : (Log.ofActs b before).base.toNat + (Log.ofActs b before).stored.length ≤ 2 ^ 32 := by
    rw [← length_generated_moves] at hwrap
    exact hwrap
  rw [received_of_position secsSince hwrapL polls hpolls _ p hp hserver hlast, hserver, hlast,
    Log.filter_beyond hwrapL hp]

/-- Twelve events while the client is away: it has the first, and the next poll that goes through brings the third. -/
theorem catches_up_twelve_events :
    received (fun now t => UInt64.ofNat (now - t)) (after (fun now t => UInt64.ofNat (now - t)) 3
        (.push Event.someEvent 0 :: .poll 1 .delivered :: List.replicate 11 (.push .someEvent 2)))
        [.poll 13 .replyLost, .poll 14 .delivered, .poll 15 .requestLost, .poll 16 .delivered]
      = [.logged .someEvent 5, .logged .someEvent 6] :=
  (catches_up _ 3 (.push Event.someEvent 0 :: .poll 1 .delivered :: List.replicate 11 (.push .someEvent 2)) _
    (by decide) (by decide)).trans (by decide)

end App
end FlipFlop
