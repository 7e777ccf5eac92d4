import Mathlib
import FlipFlop.AppClient
/-!
# AppDelivery — logged events arrive in order, without gap or duplicate

A run interleaves pushes and polls, and the transport may lose any request or reply.  As long as the offsets do not
wrap and the event after the client's last one is still held when the client polls, the client's last offset moves up
by exactly one with every logged event it receives, from the oldest event held when the first one reached it
(`loggedOffsets_consecutive`).
-/
namespace FlipFlop
namespace App

open Server

variable {E T : Type}

def Act.isPush : Act E T → Bool
  | .push _ _ => true
  | .poll _ _ => false

/-- How many events a run generates. -/
def pushes (acts : List (Act E T)) : Nat := acts.countP Act.isPush

def after (secsSince : T → T → UInt64) (b : UInt32) (acts : List (Act E T)) : Link E T :=
  Mealy.run (Link.step secsSince) (Link.init b) acts

def seen (secsSince : T → T → UInt64) (b : UInt32) (acts : List (Act E T)) : List (Seen E) :=
  Mealy.outputs (Link.step secsSince) (Link.init b) acts

/-- The offsets stay below `2 ^ 32`, and the event after the client's last one, once generated, is still held
whenever a poll goes through. -/
structure Steady (secsSince : T → T → UInt64) (b : UInt32) (acts : List (Act E T)) : Prop where
  noWrap : b.toNat + pushes acts ≤ 2 ^ 32
  retained : ∀ pre now post, acts = pre ++ .poll now .delivered :: post →
    ∀ n, (after secsSince b pre).client.lastEventOffset = some n → ∀ o ∈ generatedOffsets (seen secsSince b pre),
      o.toNat = n.toNat + 1 → o ∈ (after secsSince b pre).server.offsets

variable {secsSince : T → T → UInt64} {b : UInt32}

theorem pushes_append (pre post : List (Act E T)) : pushes (pre ++ post) = pushes pre + pushes post :=
  List.countP_append

theorem after_concat (pre : List (Act E T)) (a : Act E T) :
    after secsSince b (pre ++ [a]) = ((after secsSince b pre).step secsSince a).1 := Mealy.run_concat _ _ _ _

theorem seen_concat (pre : List (Act E T)) (a : Act E T) :
    seen secsSince b (pre ++ [a]) = seen secsSince b pre ++ [((after secsSince b pre).step secsSince a).2] :=
  Mealy.outputs_concat _ _ _ _

theorem loggedOffsets_concat (l : List (Seen E)) (x : Seen E) :
    loggedOffsets (l ++ [x]) = loggedOffsets l ++ x.loggedOffset.toList := by
  unfold loggedOffsets
  rw [List.filterMap_append]
  cases h : x.loggedOffset <;> simp [h]

/-! ## One poll -/

/-- Below the wrap, offsets count down from the next one as numbers do. -/
theorem toNat_eventOffset_sub {m k : Nat} {s : Server E T} (h : Since b m s) (hwrap : b.toNat + m ≤ 2 ^ 32)
    (hk : k ≤ m) (hk0 : 0 < k) : (s.eventOffset - UInt32.ofNat k).toNat = b.toNat + m - k := by
  rw [h.eventOffset, Counter.toNat_sub, UInt32.toNat_add, UInt32.toNat_ofNat', UInt32.toNat_ofNat']
  omega

theorem toNat_eventOffset_sub_one {m : Nat} {s : Server E T} (h : Since b m s) (hwrap : b.toNat + m ≤ 2 ^ 32)
    (hm : 0 < m) : (s.eventOffset - 1).toNat = b.toNat + m - 1 :=
  toNat_eventOffset_sub h hwrap hm Nat.one_pos

/-- The client's last offset is one the server has given. -/
structure Tracked (b : UInt32) (m : Nat) (l : Link E T) : Prop where
  since : Since b m l.server
  last : ∀ n, l.client.lastEventOffset = some n → b.toNat ≤ n.toNat ∧ n.toNat < b.toNat + m

theorem reply_none_of_empty {s : Server E T} (hnil : s.events.items = []) {C : Type} {request : CommandRequest C}
    (hreq : request.lastEventOffset = none) (now : T) : (s.reply secsSince request now).event = none := by
  rw [reply, eventReply_event, hreq, maybeEvent]
  split
  · simp [search_none, hnil]
  · rfl

/-- A client that has no event yet is sent the oldest held, if there is one. -/
theorem Tracked.reply_none (secsSince : T → T → UInt64) {m : Nat} {l : Link E T} (h : Tracked b m l)
    (hwrap : b.toNat + m ≤ 2 ^ 32) (hlast : l.client.lastEventOffset = none) (now : T) :
    (l.server.reply secsSince l.client.request now).event = none ∨
    ∃ e o, (l.server.reply secsSince l.client.request now).event = some (.logged e o) ∧
      b.toNat ≤ o.toNat ∧ o.toNat < b.toNat + m ∧ l.server.offsets.getLast? = some o := by
  by_cases hm : 0 < m
  · rw [h.since.reply_none hm secsSince hlast]
    cases hx : l.server.events.items.getLast? with
    | none => exact absurd (List.getLast?_eq_none_iff.1 hx) (h.since.ne_nil hm)
    | some x =>
      have hoff : l.server.offsets.getLast? = some x.2.1 := by
        unfold offsets
        rw [List.getLast?_map, hx]
        rfl
      have hpos : 0 < min m MAX_EVENTS := by
        unfold MAX_EVENTS
        omega
      have hnat := toNat_eventOffset_sub h.since hwrap (Nat.min_le_left m MAX_EVENTS) hpos
      have hoff' := hoff
      rw [h.since.getLast?_offsets hm, Option.some.injEq] at hoff'
      rw [hoff'] at hnat
      exact .inr ⟨x.1, x.2.1, rfl, by omega, by omega, hoff⟩
  · have hnil : l.server.events.items = [] := by
      by_contra hne
      exact hm (h.since.pos hne)
    exact .inl (reply_none_of_empty hnil hlast now)

/-- A client whose last event the server gave it is sent the next one, if it has been generated and is held. -/
theorem Tracked.reply_some (secsSince : T → T → UInt64) {m : Nat} {l : Link E T} (h : Tracked b m l)
    (hwrap : b.toNat + m ≤ 2 ^ 32) {n : UInt32} (hlast : l.client.lastEventOffset = some n)
    (hret : ∀ o : UInt32, o.toNat < b.toNat + m → o.toNat = n.toNat + 1 → o ∈ l.server.offsets) (now : T) :
    (l.server.reply secsSince l.client.request now).event = none ∨
    ∃ e o, (l.server.reply secsSince l.client.request now).event = some (.logged e o) ∧
      b.toNat ≤ o.toNat ∧ o.toNat < b.toNat + m ∧ o.toNat = n.toNat + 1 := by
  obtain ⟨hbn, hnm⟩ := h.last n hlast
  have hm : 0 < m := by omega
  have hend := toNat_eventOffset_sub_one h.since hwrap hm
  have hin : l.server.inRange n = true := by
    obtain ⟨hs, he⟩ := h.since.bounds hm
    simp only [inRange, hs, he, Bool.and_eq_true, decide_eq_true_eq, UInt32.le_iff_toNat_le]
    omega
  rw [h.since.reply_some hm secsSince hlast, if_pos hin, search_some h.since.offsets (Nat.min_le_right _ _)]
  by_cases hgen : n.toNat + 1 < b.toNat + m
  · -- the next event exists and is held, so it is found
    have hnext : (n + 1).toNat = n.toNat + 1 := by
      rw [UInt32.toNat_add, UInt32.toNat_one]
      omega
    obtain ⟨x, hf, hxo⟩ := find?_successor_some (hret (n + 1) (by omega) hnext)
    rw [← hxo] at hnext
    rw [hf]
    exact .inr ⟨x.1, x.2.1, rfl, by omega, by omega, hnext⟩
  · -- the client holds the newest event
    have hn : n = l.server.eventOffset - 1 := UInt32.toNat_inj.1 (by omega)
    have hmem : n ∈ l.server.offsets := by
      have hhead := h.since.head?_offsets hm
      rw [← hn] at hhead
      exact List.mem_of_mem_head? hhead
    have hnext : n + 1 ∉ l.server.offsets := by
      rw [h.since.offsets, ← hn]
      exact add_one_not_mem_descending (Nat.min_le_right _ _)
    rw [find?_successor_none.2 hnext]
    exact .inl (by simp [hmem])

/-- **What a poll is answered**: no event, or the logged event after the client's last one — the oldest held for a
client that has none. -/
theorem Tracked.reply (secsSince : T → T → UInt64) {m : Nat} {l : Link E T} (h : Tracked b m l) (hwrap : b.toNat + m ≤ 2 ^ 32)
    (hret : ∀ n o, l.client.lastEventOffset = some n → o.toNat < b.toNat + m → o.toNat = n.toNat + 1 →
      o ∈ l.server.offsets) (now : T) :
    (l.server.reply secsSince l.client.request now).event = none ∨
    ∃ e o, (l.server.reply secsSince l.client.request now).event = some (.logged e o) ∧
      b.toNat ≤ o.toNat ∧ o.toNat < b.toNat + m ∧
      (l.client.lastEventOffset = none → l.server.offsets.getLast? = some o) ∧
      (∀ n, l.client.lastEventOffset = some n → o.toNat = n.toNat + 1) := by
  cases hlast : l.client.lastEventOffset with
  | none =>
    rcases h.reply_none secsSince hwrap hlast now with hnone | ⟨e, o, he, hbo, hom, hoff⟩
    · exact .inl hnone
    · refine .inr ⟨e, o, he, hbo, hom, fun _ => hoff, ?_⟩
      intro n hn
      cases hn
  | some n =>
    rcases h.reply_some secsSince hwrap hlast (fun o => hret n o hlast) now with hnone | ⟨e, o, he, hbo, hom, hnext⟩
    · exact .inl hnone
    · refine .inr ⟨e, o, he, hbo, hom, ?_, ?_⟩
      · intro hk
        cases hk
      · intro k hk
        cases hk
        exact hnext

/-! ## One step, then every run -/

/-- What a step shows and where it leaves the client: nothing logged and the client as it was, or one logged event that
becomes the client's last. -/
def Advances (l l' : Link E T) (x : Seen E) : Prop :=
  (x.loggedOffset = none ∧ l'.client.lastEventOffset = l.client.lastEventOffset) ∨
  ∃ o, x.loggedOffset = some o ∧ l'.client.lastEventOffset = some o ∧
    (l.client.lastEventOffset = none → l.server.offsets.getLast? = some o) ∧
    ∀ n, l.client.lastEventOffset = some n → o.toNat = n.toNat + 1

theorem Tracked.step (secsSince : T → T → UInt64) {m : Nat} {l : Link E T} (h : Tracked b m l) (a : Act E T)
    (hwrap : b.toNat + (m + pushes [a]) ≤ 2 ^ 32)
    (hret : ∀ now, a = .poll now .delivered → ∀ n o, l.client.lastEventOffset = some n → o.toNat < b.toNat + m →
      o.toNat = n.toNat + 1 → o ∈ l.server.offsets) :
    Tracked b (m + pushes [a]) (l.step secsSince a).1 ∧ (l.step secsSince a).2.isRecovery = false ∧
      Advances l (l.step secsSince a).1 (l.step secsSince a).2 := by
  cases a with
  | push event instant =>
    refine ⟨⟨h.since.push event instant, fun n hn => ?_⟩, rfl, .inl ⟨rfl, rfl⟩⟩
    have := h.last n hn
    show _ ∧ _ < b.toNat + (m + 1)
    omega
  | poll now fate =>
    cases fate with
    | requestLost => exact ⟨h, rfl, .inl ⟨rfl, rfl⟩⟩
    | replyLost => exact ⟨h, rfl, .inl ⟨rfl, rfl⟩⟩
    | delivered =>
      have hpoll := h.reply secsSince (show b.toNat + m ≤ 2 ^ 32 from hwrap) (hret now rfl) now
      generalize hr : l.server.reply secsSince l.client.request now = reply at hpoll
      obtain ⟨ticks, event⟩ := reply
      simp only at hpoll
      rcases hpoll with rfl | ⟨e, o, rfl, hbo, hom, hfirst, hnext⟩
      · have hsame := Client.receive_of_none l.client (⟨ticks, none⟩ : EventReply (EventOf E NoEE)) rfl
        simp only [Link.step, hr, hsame]
        exact ⟨h, rfl, .inl ⟨rfl, rfl⟩⟩
      · have hlast := Client.receive_logged l.client ⟨ticks, some (.logged e o)⟩ rfl
        simp only [Link.step, hr]
        refine ⟨⟨h.since, fun n hn => ?_⟩, rfl, .inr ⟨o, rfl, hlast, hfirst, hnext⟩⟩
        rw [hlast] at hn
        cases hn
        exact ⟨hbo, hom⟩

/-- Everything generated so far, and nothing else, has an offset from `b` up to the next one. -/
theorem mem_generatedOffsets {m : Nat} {l : Link E T} (h : Tracked b m l)
    {gen : List (Seen E)} (hgen : ∀ o : UInt32, b.toNat ≤ o.toNat → o.toNat < b.toNat + m → o ∈ generatedOffsets gen)
    (a : Act E T) (hwrap : b.toNat + (m + pushes [a]) ≤ 2 ^ 32) (o : UInt32) (hb : b.toNat ≤ o.toNat)
    (ho : o.toNat < b.toNat + (m + pushes [a])) : o ∈ generatedOffsets (gen ++ [(l.step secsSince a).2]) := by
  unfold generatedOffsets
  rw [List.filterMap_append, List.mem_append]
  by_cases hold : o.toNat < b.toNat + m
  · exact .inl (hgen o hb hold)
  · cases a with
    | poll now fate => exact absurd ho hold
    | push event instant =>
      refine .inr ?_
      have hone : pushes [Act.push event instant] = 1 := rfl
      have hnew : o = l.server.eventOffset := by
        apply UInt32.toNat_inj.1
        rw [h.since.eventOffset, UInt32.toNat_add, UInt32.toNat_ofNat']
        omega
      rw [hnew]
      exact List.mem_singleton_self _

theorem Steady.pushes_le {acts : List (Act E T)} (hs : Steady secsSince b acts) {pre : List (Act E T)} {a : Act E T}
    {post : List (Act E T)} (hacts : acts = pre ++ a :: post) : b.toNat + (pushes pre + pushes [a]) ≤ 2 ^ 32 := by
  have hwrap := hs.noWrap
  have hcut : pre ++ a :: post = pre ++ [a] ++ post := by rw [List.append_assoc]; rfl
  rw [hacts, hcut, pushes_append, pushes_append] at hwrap
  omega

/-- A run that generated everything up to the next offset, cut at any act. -/
structure Upto (secsSince : T → T → UInt64) (b : UInt32) (pre : List (Act E T)) : Prop where
  tracked : Tracked b (pushes pre) (after secsSince b pre)
  noRecovery : ∀ x ∈ seen secsSince b pre, x.isRecovery = false
  generated : ∀ o : UInt32, b.toNat ≤ o.toNat → o.toNat < b.toNat + pushes pre →
    o ∈ generatedOffsets (seen secsSince b pre)

theorem Steady.step {acts : List (Act E T)} (hs : Steady secsSince b acts) {pre : List (Act E T)} {a : Act E T}
    {post : List (Act E T)} (hacts : acts = pre ++ a :: post) (h : Upto secsSince b pre) :
    Tracked b (pushes pre + pushes [a]) ((after secsSince b pre).step secsSince a).1 ∧
    ((after secsSince b pre).step secsSince a).2.isRecovery = false ∧
    Advances (after secsSince b pre) ((after secsSince b pre).step secsSince a).1
      ((after secsSince b pre).step secsSince a).2 := by
  refine h.tracked.step secsSince a (hs.pushes_le hacts) (fun now ha n o hn ho hon => ?_)
  have hb : b.toNat ≤ o.toNat := by
    have := h.tracked.last n hn
    omega
  exact hs.retained pre now post (ha ▸ hacts) n hn o (h.generated o hb ho) hon

theorem Steady.upto {acts : List (Act E T)} (hs : Steady secsSince b acts) (pre post : List (Act E T))
    (hacts : acts = pre ++ post) : Upto secsSince b pre := by
  -- along the prefixes of the run, one act at a time
  induction pre using List.reverseRecOn generalizing post with
  | nil =>
    refine ⟨⟨since_init b, nofun⟩, nofun, fun o hb ho => ?_⟩
    have : pushes ([] : List (Act E T)) = 0 := rfl
    omega
  | append_singleton pre a ih =>
    have hcut : acts = pre ++ a :: post := by rw [hacts, List.append_assoc]; rfl
    have h := ih (a :: post) hcut
    obtain ⟨htr, hrec, -⟩ := hs.step hcut h
    have hpush : pushes (pre ++ [a]) = pushes pre + pushes [a] := pushes_append pre [a]
    refine ⟨?_, fun x hx => ?_, fun o hb ho => ?_⟩
    · rw [after_concat, hpush]
      exact htr
    · rw [seen_concat] at hx
      rcases List.mem_append.1 hx with hx | hx
      · exact h.noRecovery x hx
      · rw [List.mem_singleton.1 hx]
        exact hrec
    · rw [seen_concat]
      rw [hpush] at ho
      exact mem_generatedOffsets h.tracked h.generated a (hs.pushes_le hcut) o hb ho

/-! ## The logged sequence -/

theorem Steady.advances {acts : List (Act E T)} (hs : Steady secsSince b acts) {pre : List (Act E T)} {a : Act E T}
    {post : List (Act E T)} (hacts : acts = pre ++ a :: post) :
    Advances (after secsSince b pre) (after secsSince b (pre ++ [a]))
      ((after secsSince b pre).step secsSince a).2 := by
  rw [after_concat]
  exact (hs.step hacts (hs.upto pre (a :: post) hacts)).2.2

/-- Until a logged event reaches it, the client asks without an offset. -/
theorem Steady.last_none {acts : List (Act E T)} (hs : Steady secsSince b acts) (pre post : List (Act E T))
    (hacts : acts = pre ++ post) (hnone : loggedOffsets (seen secsSince b pre) = []) :
    (after secsSince b pre).client.lastEventOffset = none := by
  induction pre using List.reverseRecOn generalizing post with
  | nil => rfl
  | append_singleton pre a ih =>
    have hcut : acts = pre ++ a :: post := by rw [hacts, List.append_assoc]; rfl
    rw [seen_concat, loggedOffsets_concat, List.append_eq_nil_iff] at hnone
    have hpre := ih (a :: post) hcut hnone.1
    rcases hs.advances hcut with ⟨-, hsame⟩ | ⟨o, ho, -⟩
    · rw [hsame, hpre]
    · rw [ho] at hnone
      cases hnone.2

/-- From the first logged event on, the offsets received run up to the client's last one without a gap. -/
theorem Steady.range {acts : List (Act E T)} (hs : Steady secsSince b acts) {pre : List (Act E T)} {a : Act E T}
    {o : UInt32} (hnone : loggedOffsets (seen secsSince b pre) = [])
    (ho : ((after secsSince b pre).step secsSince a).2.loggedOffset = some o) (mid post : List (Act E T))
    (hacts : acts = pre ++ a :: mid ++ post) :
    ∃ n, (after secsSince b (pre ++ a :: mid)).client.lastEventOffset = some n ∧
      (loggedOffsets (seen secsSince b (pre ++ a :: mid))).map UInt32.toNat
        = List.range' o.toNat (loggedOffsets (seen secsSince b (pre ++ a :: mid))).length ∧
      n.toNat + 1 = o.toNat + (loggedOffsets (seen secsSince b (pre ++ a :: mid))).length := by
  induction mid using List.reverseRecOn generalizing post with
  | nil =>
    have hcut : acts = pre ++ a :: post := by rw [hacts, List.append_assoc]; rfl
    have hone : loggedOffsets (seen secsSince b (pre ++ [a])) = [o] := by
      rw [seen_concat, loggedOffsets_concat, hnone, ho]; rfl
    rcases hs.advances hcut with ⟨hno, -⟩ | ⟨o', ho', hlast, -⟩
    · rw [ho] at hno; cases hno
    · rw [ho] at ho'
      cases ho'
      exact ⟨o, hlast, by rw [hone]; rfl, by rw [hone]; rfl⟩
  | append_singleton mid c ih =>
    have hcut : acts = pre ++ a :: mid ++ c :: post := by rw [hacts]; simp
    obtain ⟨n, hn, hrange, hcount⟩ := ih (c :: post) hcut
    have hsplit : pre ++ a :: (mid ++ [c]) = pre ++ a :: mid ++ [c] := by simp
    rw [hsplit, seen_concat, loggedOffsets_concat]
    rcases hs.advances hcut with ⟨hno, hsame⟩ | ⟨o', ho', hlast, -, hnext⟩
    · rw [hno, hsame]
      simpa using ⟨n, hn, hrange, hcount⟩
    · have hsucc := hnext n hn
      rw [ho']
      refine ⟨o', hlast, ?_, by simp; omega⟩
      simp only [Option.toList_some, List.map_append, List.map_cons, List.map_nil, List.length_append,
        List.length_cons, List.length_nil, hrange, Nat.zero_add]
      rw [List.range'_concat, Nat.one_mul, hsucc, hcount]

/-- **Logged events are delivered in order, without gap or duplicate**: no reply is a recovery, and the offsets
received count up by one from the oldest event held at the poll that brought the first. -/
theorem loggedOffsets_consecutive (acts : List (Act E T)) (hs : Steady secsSince b acts) :
    (∀ x ∈ seen secsSince b acts, x.isRecovery = false) ∧
    ∀ pre a post, acts = pre ++ a :: post → loggedOffsets (seen secsSince b pre) = [] →
      ((after secsSince b pre).step secsSince a).2.loggedOffset ≠ none →
      ∃ o, (after secsSince b pre).server.offsets.getLast? = some o ∧
        (loggedOffsets (seen secsSince b acts)).map UInt32.toNat
          = List.range' o.toNat (loggedOffsets (seen secsSince b acts)).length := by
  refine ⟨(hs.upto acts [] (List.append_nil acts).symm).noRecovery, fun pre a post hacts hnone hsome => ?_⟩
  rcases hs.advances hacts with ⟨hno, -⟩ | ⟨o, ho, -, hfirst, -⟩
  · exact absurd hno hsome
  · refine ⟨o, hfirst (hs.last_none pre (a :: post) hacts hnone), ?_⟩
    obtain ⟨n, -, hrange, -⟩ := hs.range hnone ho post [] (by rw [hacts, List.append_nil])
    rw [hacts]
    exact hrange

/-- Two events, the second one's reply lost once and sent again. -/
def exampleActs : List (Act Event Nat) :=
  [.push .someEvent 0, .poll 1 .delivered, .push .someEvent 2, .poll 3 .replyLost, .poll 4 .delivered]

theorem exampleActs_steady : Steady (fun now t => UInt64.ofNat (now - t)) 3 exampleActs where
  noWrap := by decide
  retained := by
    intro pre now post hacts n _ o ho _
    have htake : pre = exampleActs.take pre.length := by rw [hacts, List.take_left]
    have hlt : pre.length < 5 := by
      have := congrArg List.length hacts
      simp only [exampleActs, List.length_cons, List.length_nil, List.length_append] at this
      omega
    -- nothing is overwritten in a run of two events
    have hall : ∀ k < 5, generatedOffsets (seen (fun now t => UInt64.ofNat (now - t)) 3 (exampleActs.take k))
        = (after (fun now t => UInt64.ofNat (now - t)) 3 (exampleActs.take k)).server.offsets.reverse := by decide
    have hheld := hall pre.length hlt
    rw [← htake] at hheld
    rw [hheld, List.mem_reverse] at ho
    exact ho

theorem loggedOffsets_consecutive_two_events :
    ∃ o, (after (fun now t => UInt64.ofNat (now - t)) 3 [.push Event.someEvent 0]).server.offsets.getLast? = some o ∧
      (loggedOffsets (seen (fun now t => UInt64.ofNat (now - t)) 3 exampleActs)).map UInt32.toNat
        = List.range' o.toNat (loggedOffsets (seen (fun now t => UInt64.ofNat (now - t)) 3 exampleActs)).length :=
  (loggedOffsets_consecutive exampleActs exampleActs_steady).2 [.push .someEvent 0] (.poll 1 .delivered)
    [.push .someEvent 2, .poll 3 .replyLost, .poll 4 .delivered] rfl (by decide) (by decide)

end App
end FlipFlop
