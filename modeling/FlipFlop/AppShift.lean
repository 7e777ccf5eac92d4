import FlipFlop.AppRules
/-!
# AppShift — the server under a change of offsets

Offsets count modulo `2 ^ 32`, so a server whose offsets are all moved by `k` should answer a request moved by `k` with
the same reply moved by `k`.  Pushing and searching do commute with the move (`push_shift`, `search_shift`); the range
check does not, since it orders bare offsets.  `answersAlike_iff` says what is left: a request made from within the arc
from `start` up to `end` is answered alike exactly when both arcs, or neither, cross the wrap.
-/
namespace FlipFlop
namespace App

open Server

variable {E T C : Type}

def Stored.shift (k : UInt32) (x : Stored E T) : Stored E T := (x.1, x.2.1 + k, x.2.2)

def EventOf.shift (k : UInt32) : EventOf E NoEE → EventOf E NoEE
  | .logged e o => .logged e (o + k)
  | .ephemeral e => .ephemeral e
  | .recovery start end_ => .recovery (start + k) (end_ + k)

def EventReply.shift (k : UInt32) (r : EventReply (EventOf E NoEE)) : EventReply (EventOf E NoEE) :=
  { r with event := r.event.map (EventOf.shift k) }

def CommandRequest.shift (k : UInt32) (r : CommandRequest C) : CommandRequest C :=
  { r with lastEventOffset := r.lastEventOffset.map (· + k) }

namespace Server

def shift (k : UInt32) (s : Server E T) : Server E T :=
  { events := s.events.map (Stored.shift k)
    start := s.start.map (· + k)
    end_ := s.end_.map (· + k)
    eventOffset := s.eventOffset + k }

def Input.shift (k : UInt32) : Input E T C → Input E T C
  | .request r now => .request (r.shift k) now
  | .push event instant => .push event instant
  | .reset draw => .reset draw

def Input.isReset : Input E T C → Bool
  | .reset _ => true
  | _ => false

/-! ## What commutes -/

theorem shift_init (b k : UInt32) : (init b : Server E T).shift k = init (b + k) := rfl

theorem push_shift (k : UInt32) (s : Server E T) (event : E) (instant : T) :
    (s.shift k).push event instant = (s.push event instant).shift k := by
  have hnext : s.eventOffset + k + 1 = s.eventOffset + 1 + k := by grind
  cases hs : s.start <;> simp [push, shift, CircularQueue.map_push, Stored.shift, hs, hnext]

theorem step_shift (secsSince : T → T → UInt64) (k : UInt32) (s : Server E T) (i : Input E T C)
    (hi : i.isReset = false) : (step secsSince (s.shift k) (i.shift k)).1 = (step secsSince s i).1.shift k := by
  cases i with
  | request request now => rfl
  | push event instant => exact push_shift k s event instant
  | reset draw => cases hi

theorem add_right_inj_option (k : UInt32) (o : UInt32) (x : Option UInt32) :
    (some (o + k) == x.map (· + k)) = (some o == x) := by
  cases x with
  | none => rfl
  | some n => simp

theorem dropWhile_map {α β : Type} (f : α → β) (p : β → Bool) : ∀ l : List α,
    (l.map f).dropWhile p = (l.dropWhile (fun x => p (f x))).map f
  | [] => rfl
  | x :: l => by
    rw [List.map_cons, List.dropWhile_cons, List.dropWhile_cons]
    split
    · exact dropWhile_map f p l
    · rfl

theorem offsetIs_shift (k : UInt32) (e : Option (Stored E T)) (n : Option UInt32) :
    offsetIs (e.map (Stored.shift k)) (n.map (· + k)) = offsetIs e n := by
  cases e with
  | none => rfl
  | some x => exact add_right_inj_option k x.2.1 n

/-- **The search compares offsets for equality alone**, so it commutes with the move. -/
theorem search_shift (k : UInt32) (s : Server E T) (n : Option UInt32) :
    (s.shift k).search (n.map (· + k)) = (s.search n).map (Stored.shift k) := by
  have hnext : (n.map (· + k)).map (· + 1) = (n.map (· + 1)).map (· + k) := by
    cases n with
    | none => rfl
    | some n =>
      have h : n + k + 1 = n + 1 + k := by grind
      exact congrArg some h
  have hscan : ∀ x : Stored E T, (some (x.2.1 + k) != (n.map (· + 1)).map (· + k) && some (x.2.1 + k) != n.map (· + k))
      = (some x.2.1 != n.map (· + 1) && some x.2.1 != n) := by
    intro x
    simp only [bne, add_right_inj_option]
  have hdrop : (s.shift k).events.iter.dropWhile
      (fun x => some x.2.1 != (n.map (· + 1)).map (· + k) && some x.2.1 != n.map (· + k))
      = (s.events.iter.dropWhile (fun x => some x.2.1 != n.map (· + 1) && some x.2.1 != n)).map (Stored.shift k) := by
    show (s.events.items.map (Stored.shift k)).dropWhile _ = _
    rw [dropWhile_map]
    simp only [Stored.shift, hscan, iter_eq]
  have hlast : (s.shift k).events.iter.getLast? = s.events.iter.getLast?.map (Stored.shift k) := by
    show (s.events.items.map (Stored.shift k)).getLast? = _
    rw [List.getLast?_map, iter_eq]
  simp only [search, hnext, hdrop, hlast, List.head?_map, ← List.map_tail, offsetIs_shift]
  split
  · rfl
  · split
    · rfl
    · split
      · rfl
      · rfl

/-! ## The range check -/

/-- `n` is met on the way up from `start` to `end`, wherever the wrap falls. -/
def onArc (start end_ n : UInt32) : Bool := decide (n - start ≤ end_ - start)

theorem le_and_le_iff (start end_ n : UInt32) :
    (start ≤ n ∧ n ≤ end_) ↔ start ≤ end_ ∧ onArc start end_ n = true := by
  simp only [onArc, decide_eq_true_eq, UInt32.le_iff_toNat_le, Counter.toNat_sub]
  have := start.toNat_lt
  have := end_.toNat_lt
  have := n.toNat_lt
  omega

theorem onArc_shift (k start end_ n : UInt32) : onArc (start + k) (end_ + k) (n + k) = onArc start end_ n := by
  have h1 : n + k - (start + k) = n - start := by grind
  have h2 : end_ + k - (start + k) = end_ - start := by grind
  rw [onArc, h1, h2, onArc]

/-- On the arc, the offset `n` is not cut off by the wrap in one of two servers and let through in the other. -/
def WrapsAlike (k : UInt32) (s : Server E T) (n : UInt32) : Prop :=
  ∀ start end_, s.start = some start → s.end_ = some end_ → onArc start end_ n = true →
    (start ≤ end_ ↔ start + k ≤ end_ + k)

theorem start_shift (k : UInt32) {s : Server E T} {start : UInt32} (hs : s.start = some start) :
    (s.shift k).start = some (start + k) := by
  rw [shift, hs, Option.map_some]

theorem end_shift (k : UInt32) {s : Server E T} {end_ : UInt32} (he : s.end_ = some end_) :
    (s.shift k).end_ = some (end_ + k) := by
  rw [shift, he, Option.map_some]

theorem inRange_shift_iff (k : UInt32) (s : Server E T) (n : UInt32) :
    (s.shift k).inRange (n + k) = s.inRange n ↔ WrapsAlike k s n := by
  unfold WrapsAlike
  cases hs : s.start with
  | none => simp [inRange, shift, hs]
  | some start =>
    cases he : s.end_ with
    | none => simp [inRange, shift, hs, he]
    | some end_ =>
      have hold := le_and_le_iff start end_ n
      have hnew := le_and_le_iff (start + k) (end_ + k) (n + k)
      rw [onArc_shift] at hnew
      rw [Bool.eq_iff_iff]
      simp only [inRange, shift, hs, he, Option.map_some, Bool.and_eq_true, decide_eq_true_eq, hold, hnew,
        Option.some.injEq]
      constructor
      · rintro h _ _ rfl rfl harc
        constructor
        · intro hle
          exact (h.2 ⟨hle, harc⟩).1
        · intro hle
          exact (h.1 ⟨hle, harc⟩).1
      · intro h
        constructor
        · rintro ⟨hle, harc⟩
          exact ⟨(h start end_ rfl rfl harc).2 hle, harc⟩
        · rintro ⟨hle, harc⟩
          exact ⟨(h start end_ rfl rfl harc).1 hle, harc⟩

/-! ## The reply -/

theorem maybeEvent_none (s : Server E T) (n : Option UInt32) (now : T) (h : s.start = none ∨ s.end_ = none) :
    s.maybeEvent n now = none := by
  unfold maybeEvent
  rcases h with h | h
  · rw [h]
  · rw [h]
    cases s.start <;> rfl

theorem map_search_shift (k : UInt32) (s : Server E T) (n : Option UInt32) :
    ((s.shift k).search (n.map (· + k))).map (fun x => ((.logged x.1 x.2.1 : EventOf E NoEE), x.2.2))
      = ((s.search n).map (fun x => (.logged x.1 x.2.1, x.2.2))).map (Prod.map (EventOf.shift k) id) := by
  rw [search_shift, Option.map_map, Option.map_map]
  rfl

theorem maybeEvent_shift (k : UInt32) (s : Server E T) (n : Option UInt32) (now : T)
    (h : ∀ m, n = some m → WrapsAlike k s m) :
    (s.shift k).maybeEvent (n.map (· + k)) now = (s.maybeEvent n now).map (Prod.map (EventOf.shift k) id) := by
  cases hs : s.start with
  | none => rw [maybeEvent_none s n now (.inl hs), maybeEvent_none _ _ now (.inl (by simp [shift, hs]))]; rfl
  | some start =>
    cases he : s.end_ with
    | none => rw [maybeEvent_none s n now (.inr he), maybeEvent_none _ _ now (.inr (by simp [shift, he]))]; rfl
    | some end_ =>
      have hs' := start_shift k hs
      have he' := end_shift k he
      cases n with
      | none =>
        have hsearch := map_search_shift k s none
        simpa only [maybeEvent, hs, he, hs', he', Option.isNone_none, Bool.true_or, if_true, Option.map_none]
          using hsearch
      | some n =>
        have hrange := (inRange_shift_iff k s n).2 (h n rfl)
        have hsearch := map_search_shift k s (some n)
        rw [Option.map_some] at hsearch
        rw [Option.map_some, maybeEvent_some _ _ now hs' he', maybeEvent_some _ _ now hs he, hrange, hsearch]
        split
        · rfl
        · rfl

theorem eventReply_shift (k : UInt32) (x : Option (EventOf E NoEE × T)) (f : T → UInt64) :
    eventReply (x.map (Prod.map (EventOf.shift k) id)) f = (eventReply x f).shift k := by
  cases x <;> rfl

end Server

theorem EventOf.shift_shift_neg (k : UInt32) (e : EventOf E NoEE) : (e.shift k).shift (0 - k) = e := by
  have h : ∀ o : UInt32, o + k + (0 - k) = o := by intro o; grind
  cases e <;> simp only [EventOf.shift, h]

theorem EventReply.shift_shift_neg (k : UInt32) (r : EventReply (EventOf E NoEE)) : (r.shift k).shift (0 - k) = r := by
  have h : EventOf.shift (E := E) (0 - k) ∘ EventOf.shift k = id := funext (EventOf.shift_shift_neg k)
  simp only [EventReply.shift, Option.map_map, h, Option.map_id, id]

def EventOf.isRecovery : EventOf E NoEE → Bool
  | .recovery _ _ => true
  | _ => false

theorem EventReply.any_isRecovery_shift (k : UInt32) (r : EventReply (EventOf E NoEE)) :
    (r.shift k).event.any EventOf.isRecovery = r.event.any EventOf.isRecovery := by
  obtain ⟨ticks, event⟩ := r
  cases event with
  | none => rfl
  | some e => cases e <;> rfl

namespace Server

/-- A request for an offset is answered with a recovery exactly when the offset is out of range. -/
theorem any_isRecovery_reply (secsSince : T → T → UInt64) (s : Server E T) (request : CommandRequest C) (now : T)
    {n start end_ : UInt32} (hreq : request.lastEventOffset = some n) (hs : s.start = some start)
    (he : s.end_ = some end_) : (s.reply secsSince request now).event.any EventOf.isRecovery = !s.inRange n := by
  rw [reply, eventReply_event, hreq, maybeEvent_some s n now hs he]
  cases hr : s.inRange n with
  | true => cases hf : s.search (some n) <;> simp [EventOf.isRecovery]
  | false => simp [EventOf.isRecovery]

/-- **A request is answered alike, after the move back, exactly when its offset meets the wrap alike.** -/
theorem reply_shift_iff (secsSince : T → T → UInt64) (k : UInt32) (s : Server E T) (request : CommandRequest C)
    (now : T) :
    ((s.shift k).reply secsSince (request.shift k) now).shift (0 - k) = s.reply secsSince request now ↔
      ∀ n, request.lastEventOffset = some n → WrapsAlike k s n := by
  constructor
  · intro h n hreq start end_ hs he
    refine (inRange_shift_iff k s n).1 ?_ start end_ hs he
    have hs' := start_shift k hs
    have he' := end_shift k he
    have hreq' : (request.shift k).lastEventOffset = some (n + k) := by simp [CommandRequest.shift, hreq]
    have hnew := any_isRecovery_reply secsSince (s.shift k) (request.shift k) now hreq' hs' he'
    have hold := any_isRecovery_reply secsSince s request now hreq hs he
    rw [← EventReply.any_isRecovery_shift (0 - k), h, hold] at hnew
    exact (Bool.not_inj hnew).symm
  · intro h
    have hreply : (s.shift k).reply secsSince (request.shift k) now = (s.reply secsSince request now).shift k := by
      unfold reply
      rw [← eventReply_shift, ← maybeEvent_shift k s _ now h]
      rfl
    rw [hreply, EventReply.shift_shift_neg]

/-- The run from `b` and the run from `b + k` with the requests moved by `k` give the same replies, moved back. -/
def AnswersAlike (secsSince : T → T → UInt64) (b k : UInt32) (inputs : List (Input E T C)) : Prop :=
  (Mealy.outputs (step secsSince) (init (b + k)) (inputs.map (Input.shift k))).map (Option.map (EventReply.shift (0 - k)))
    = Mealy.outputs (step secsSince) (init b) inputs

theorem answersAlike_iff_forall (secsSince : T → T → UInt64) (b k : UInt32) (inputs : List (Input E T C))
    (hreset : ∀ i ∈ inputs, i.isReset = false) :
    AnswersAlike secsSince b k inputs ↔ ∀ front i back, inputs = front ++ i :: back →
      (step secsSince ((Mealy.run (step secsSince) (init b) front).shift k) (i.shift k)).2.map (EventReply.shift (0 - k))
        = (step secsSince (Mealy.run (step secsSince) (init b) front) i).2 := by
  unfold AnswersAlike
  rw [← shift_init, Mealy.outputs_map_eq_iff inputs (init b) (fun s i hi => step_shift secsSince k s i (hreset i hi))]

/-- **Two runs a move apart answer alike exactly when every request meets the wrap alike.** -/
theorem answersAlike_iff (secsSince : T → T → UInt64) (b k : UInt32) (inputs : List (Input E T C))
    (hreset : ∀ i ∈ inputs, i.isReset = false) :
    AnswersAlike secsSince b k inputs ↔
      ∀ front request now back, inputs = front ++ .request request now :: back →
        ∀ n, request.lastEventOffset = some n → WrapsAlike k (Mealy.run (step secsSince) (init b) front) n := by
  rw [answersAlike_iff_forall secsSince b k inputs hreset]
  constructor
  · intro h front request now back hcut
    exact (reply_shift_iff secsSince k _ request now).1 (Option.some.inj (h front _ back hcut))
  · intro h front i back hcut
    cases i with
    | request request now =>
      exact congrArg some ((reply_shift_iff secsSince k _ request now).2 (h front request now back hcut))
    | push event instant => rfl
    | reset draw => rfl

/-- `m` events, then one request from offset `n`. -/
def exampleInputs (m : Nat) (n : UInt32) : List (Input Event Nat Command) :=
  List.replicate m (.push .someEvent 0) ++ [.request ⟨some n, none⟩ 1]

theorem exampleInputs_isReset (m : Nat) (n : UInt32) : ∀ i ∈ exampleInputs m n, i.isReset = false := by
  intro i hi
  rcases List.mem_append.1 hi with hi | hi
  · rw [List.eq_of_mem_replicate hi]
    rfl
  · rw [List.mem_singleton.1 hi]
    rfl

theorem answersAlike_iff_two_events :
    (∀ i ∈ exampleInputs 2 3, i.isReset = false) ∧
    AnswersAlike (fun now t => UInt64.ofNat (now - t)) 3 4 (exampleInputs 2 3) ∧
    WrapsAlike 4 (Mealy.run (step (C := Command) (fun now t => UInt64.ofNat (now - t))) (init 3)
      (List.replicate 2 (.push Event.someEvent 0))) 3 :=
  have halike : AnswersAlike (fun now t => UInt64.ofNat (now - t)) 3 4 (exampleInputs 2 3) := by
    unfold AnswersAlike
    decide
  ⟨exampleInputs_isReset 2 3, halike,
    (answersAlike_iff _ 3 4 (exampleInputs 2 3) (exampleInputs_isReset 2 3)).1 halike _ _ _ [] rfl 3 rfl⟩

theorem since_replicate (secsSince : T → T → UInt64) (b : UInt32) (event : E) (instant : T) : ∀ m : Nat,
    Since b m (Mealy.run (step (C := C) secsSince) (init b) (List.replicate m (.push event instant)))
  | 0 => since_init b
  | m + 1 => by
    rw [List.replicate_succ', Mealy.run_concat]
    exact (since_replicate secsSince b event instant m).push event instant

/-- A server started at the greatest offset answers the same poll differently after two events, and two servers that
draw 0 and 1 do so once `2 ^ 32` events have passed. -/
theorem not_answersAlike :
    ¬ AnswersAlike (fun now t => UInt64.ofNat (now - t)) 0 4294967295 (exampleInputs 2 0) ∧
    ¬ AnswersAlike (fun now t => UInt64.ofNat (now - t)) 0 1 (exampleInputs (2 ^ 32) 0) := by
  constructor
  · unfold AnswersAlike
    decide
  · intro h
    have hlast := (answersAlike_iff_forall _ 0 1 _ (exampleInputs_isReset (2 ^ 32) 0)).1 h _ _ [] rfl
    have hwrap := (reply_shift_iff _ 1 _ _ 1).1 (Option.some.inj hlast) 0 rfl
    have hsince := since_replicate (C := Command) (fun now t => UInt64.ofNat (now - t)) 0 Event.someEvent 0 (2 ^ 32)
    obtain ⟨hs, he⟩ := hsince.bounds (by omega)
    rw [hsince.eventOffset] at he
    exact absurd (hwrap 0 _ hs he (by decide)) (by decide)

end Server
end App
end FlipFlop
