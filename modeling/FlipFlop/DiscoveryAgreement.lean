import FlipFlop.DiscoveryAddresses
import FlipFlop.DiscoveryRun
/-!
# DiscoveryAgreement — how a discovery without losses ends

In rounds in which every server hears the client and every reply arrives, each address the client has set, other than
its own, is held by one server; and once `client::task` has returned `true` every server holds an address of its own
(`discovery_agrees`).  Two things carry it from round to round: a server that holds a set address is through, and any
other finds an address to pick, since there are more addresses than servers.
-/
namespace FlipFlop
namespace Discovery

open Rust

/-! ## What finishing takes -/

/-- An address reported twice keeps the client from finishing. -/
theorem Client.counts_of_settle (counts : Nat → Nat) : ∀ (l : List Nat) (st : Identify × Bool),
    ((l.map (fun a => (counts a, a))).foldl settle st).2 = true → st.2 = true ∧ ∀ a ∈ l, counts a ≤ 1
  | [], _, h => ⟨h, fun _ ha => absurd ha List.not_mem_nil⟩
  | a :: l, st, h => by
    rw [List.map_cons, List.foldl_cons] at h
    obtain ⟨hst, hl⟩ := counts_of_settle counts l _ h
    unfold settle at hst
    have ha : st.2 = true ∧ counts a ≤ 1 := by
      by_cases hone : counts a = 1
      · exact ⟨by simpa [hone] using hst, by omega⟩
      · by_cases hmore : counts a > 1
        · simp [hone, hmore] at hst
        · exact ⟨by simpa [hone, hmore] using hst, by omega⟩
    refine ⟨ha.1, fun b hb => ?_⟩
    rcases List.mem_cons.1 hb with rfl | hb
    · exact ha.2
    · exact hl b hb

/-- **A client that has finished was told no address twice.** -/
theorem Client.count_of_task {identify : Identify} {received : List (Option Identified)}
    (h : (task identify received).2 = true) (a : UInt8) : (reported received).count a ≤ 1 := by
  rw [task_eq] at h
  have hall := (counts_of_settle (fun a => (reported received).count (UInt8.ofNat a)) _ _ h).2 a.toNat
    (List.mem_range.2 (addressIx a).isLt)
  rwa [UInt8.ofNat_toNat] at hall

variable {n : Nat}

/-- Every server hears the client, and every reply arrives as it was sent. -/
structure Round.Reliable (r : Round n) : Prop where
  hears : ∀ i, r.hears i = true
  intact : ∀ i, r.fate i = .intact

namespace Network

/-! ## Servers that are through -/

/-- The server holds the address, and the client has set it. -/
def Settled (s : Network n) (i : Fin n) (a : UInt8) : Prop :=
  s.servers i = some a ∧ s.identify.isAddressSet a = true

/-- **A settled server keeps its address and is silent.** -/
theorem serverTask_of_settled {s : Network n} {i : Fin n} {a : UInt8} (h : s.Settled i a) (r : Round n) :
    s.serverTask r i = (some a, none) := by
  obtain ⟨hi, ha⟩ := h
  unfold serverTask
  rcases Server.task_cases (if r.hears i then some s.identify else none) (s.servers i) (r.draw i) with
    h | ⟨identify, identified, hreq, hold, -, -⟩
  · rw [h, hi]
  · have hid : s.identify = identify := by
      split at hreq
      · exact Option.some.inj hreq
      · cases hreq
    rw [hid, hold a hi] at ha
    cases ha

theorem isAddressSet_step {s : Network n} {a : UInt8} (ha : s.identify.isAddressSet a = true) (r : Round n) :
    (s.step r).1.identify.isAddressSet a = true := by
  cases hf : s.finished with
  | true =>
    simp only [step, hf, if_true]
    exact ha
  | false =>
    rw [step_of_not_finished hf, Client.isAddressSet_task, ha, Bool.true_or]

theorem Settled.step {s : Network n} {i : Fin n} {a : UInt8} (h : s.Settled i a) (r : Round n) :
    (s.step r).1.Settled i a := by
  refine ⟨?_, isAddressSet_step h.2 r⟩
  cases hf : s.finished with
  | true =>
    simp only [Network.step, hf, if_true]
    exact h.1
  | false =>
    rw [step_of_not_finished hf]
    simp only [serverTask_of_settled h r]

/-! ## A round without losses -/

/-- The address a server replies with. -/
def replies (s : Network n) (r : Round n) (i : Fin n) : Option UInt8 :=
  (s.serverTask r i).2.map Identified.serverAddress

theorem reported_received {r : Round n} (hr : r.Reliable) (s : Network n) :
    reported (s.received r) = ((List.finRange n).map r.order).filterMap (s.replies r) := by
  unfold reported received
  rw [List.filterMap_filterMap]
  congr 1
  funext i
  unfold replies
  rw [hr.intact i]
  cases (s.serverTask r i).2 <;> rfl

/-- How many replies report an address is how many servers reply with it. -/
theorem count_reported {r : Round n} (hr : r.Reliable) (s : Network n) (a : UInt8) :
    (reported (s.received r)).count a = (Finset.univ.filter (fun i => s.replies r i = some a)).card := by
  have hperm : ((List.finRange n).map r.order).Perm (List.finRange n) := Equiv.Perm.map_finRange_perm r.order
  rw [reported_received hr, List.count_filterMap, hperm.countP_eq, List.countP_eq_length_filter]
  have hnodup := (List.nodup_finRange n).filter (fun i => s.replies r i == some a)
  rw [← List.toFinset_card_of_nodup hnodup]
  congr 1
  ext i
  simp

theorem count_reported_eq_one_iff {r : Round n} (hr : r.Reliable) (s : Network n) (a : UInt8) :
    (reported (s.received r)).count a = 1 ↔ ∃! i, s.replies r i = some a := by
  rw [count_reported hr, Fintype.existsUnique_iff_card_one]

/-- **A server that is not settled picks an address**, as long as one is left, and replies with it. -/
theorem serverTask_of_unsettled {s : Network n} {r : Round n} (hr : r.Reliable) {i : Fin n}
    (hi : ∀ a, ¬ s.Settled i a) (hspare : s.identify.spare ≠ []) :
    ∃ a, s.identify.isAddressSet a = false ∧ (s.serverTask r i).1 = some a ∧ s.replies r i = some a := by
  obtain ⟨a, hget, hpick⟩ := withRandomAddress_of_spare hspare (r.draw i) 0b00000010
  have hfree : ((s.servers i).map (fun sa => !s.identify.isAddressSet sa)).getD true = true := by
    cases hold : s.servers i with
    | none => rfl
    | some b =>
      have hb := hi b
      simp only [Settled, hold, true_and] at hb
      simpa using hb
  have htask : s.serverTask r i = (some a, some { serverAddress := a, serverPorts := 0b00000010 }) := by
    unfold serverTask Server.task
    simp only [hr.hears i, if_true, hfree, hpick]
    rfl
  refine ⟨a, Identify.toNat_mem_spare.1 (List.mem_of_getElem? hget), ?_, ?_⟩
  · rw [htask]
  · rw [replies, htask]
    rfl

/-! ## What every round keeps -/

/-- What holds between the client's field and the servers' own addresses. -/
structure Agreed (s : Network n) : Prop where
  reserved : s.identify.isAddressSet 0 = true
  held : ∀ a, a ≠ 0 → s.identify.isAddressSet a = true → ∃ i, s.servers i = some a
  sole : s.Unique
  nonzero : ∀ i, s.servers i ≠ some 0
  finished : s.finished = true → ∀ i, ∃ a, s.Settled i a

theorem agreed_init : (init n).Agreed where
  reserved := by
    show (({ addresses := Vector.replicate MIN_PAYLOAD_SIZE 0 } : Identify).setAddress 0).isAddressSet 0 = true
    rw [isAddressSet_setAddress, decide_eq_true rfl, Bool.true_or]
  held a ha hset := by
    have hzero : ({ addresses := Vector.replicate MIN_PAYLOAD_SIZE 0 } : Identify).isAddressSet a = false := by
      simp [Identify.isAddressSet]
    rw [init, isAddressSet_setAddress, decide_eq_false ha, hzero] at hset
    cases hset
  sole i j a hi := by cases hi
  nonzero i h := by cases h
  finished h := by cases h

/-- **While a server is not settled an address is left**: the other servers are too few to hold them all. -/
theorem Agreed.spare_ne_nil {s : Network n} (h : s.Agreed) (hn : n ≤ 255) {i : Fin n} (hi : ∀ a, ¬ s.Settled i a) :
    s.identify.spare ≠ [] := by
  intro hnil
  have hall := s.identify.spare_eq_nil_iff.1 hnil
  choose holder hholder using fun (a : UInt8) (ha : a ≠ 0) => h.held a ha (hall a)
  -- every address has a server of its own, address 0 the one that is not settled
  let owner : UInt8 → Fin n := fun a => if ha : a = 0 then i else holder a ha
  have hne : ∀ a (ha : a ≠ 0), holder a ha ≠ i := by
    intro a ha heq
    exact hi a ⟨heq ▸ hholder a ha, hall a⟩
  have hinj : Function.Injective owner := by
    intro a b hab
    by_cases ha : a = 0
    · by_cases hb : b = 0
      · rw [ha, hb]
      · simp only [owner, dif_pos ha, dif_neg hb] at hab
        exact absurd hab.symm (hne b hb)
    · by_cases hb : b = 0
      · simp only [owner, dif_pos hb, dif_neg ha] at hab
        exact absurd hab (hne a ha)
      · simp only [owner, dif_neg ha, dif_neg hb] at hab
        have heq := hholder a ha
        rw [hab, hholder b hb] at heq
        exact (Option.some.inj heq).symm
  have hbytes : Function.Injective (fun k : Fin 256 => UInt8.ofNat k) := by
    intro k l hkl
    have hnat := congrArg UInt8.toNat hkl
    simp only [UInt8.toNat_ofNat'] at hnat
    omega
  have hcard := Fintype.card_le_of_injective _ (hinj.comp hbytes)
  simp only [Fintype.card_fin] at hcard
  omega

/-- In a round without losses a server is settled, or it picks an address that is not set and replies with it. -/
theorem Agreed.turn {s : Network n} (h : s.Agreed) (hn : n ≤ 255) {r : Round n} (hr : r.Reliable) (i : Fin n) :
    (∃ a, s.Settled i a ∧ (s.serverTask r i).1 = some a ∧ s.replies r i = none) ∨
    ∃ a, s.identify.isAddressSet a = false ∧ (s.serverTask r i).1 = some a ∧ s.replies r i = some a := by
  by_cases hi : ∃ a, s.Settled i a
  · obtain ⟨a, ha⟩ := hi
    have htask := serverTask_of_settled ha r
    exact .inl ⟨a, ha, by rw [htask], by rw [replies, htask]; rfl⟩
  · have hi' : ∀ a, ¬ s.Settled i a := fun a ha => hi ⟨a, ha⟩
    exact .inr (serverTask_of_unsettled hr hi' (h.spare_ne_nil hn hi'))

theorem Agreed.of_replies {s : Network n} (h : s.Agreed) (hn : n ≤ 255) {r : Round n} (hr : r.Reliable) {i : Fin n}
    {a : UInt8} (hi : s.replies r i = some a) :
    s.identify.isAddressSet a = false ∧ (s.serverTask r i).1 = some a := by
  rcases h.turn hn hr i with ⟨_, _, _, hnone⟩ | ⟨b, hfree, hpick, hreply⟩
  · rw [hi] at hnone
    cases hnone
  · rw [hi, Option.some.injEq] at hreply
    rw [hreply]
    exact ⟨hfree, hpick⟩

/-- Who holds an address that was not set before the round replied with it. -/
theorem Agreed.replies_of_holds {s : Network n} (h : s.Agreed) (hn : n ≤ 255) {r : Round n} (hr : r.Reliable)
    {i : Fin n} {a : UInt8} (hfree : s.identify.isAddressSet a = false) (hi : (s.serverTask r i).1 = some a) :
    s.replies r i = some a := by
  rcases h.turn hn hr i with ⟨b, hsettled, hkeep, _⟩ | ⟨b, _, hpick, hreply⟩
  · rw [hi, Option.some.injEq] at hkeep
    rw [hkeep, hsettled.2] at hfree
    cases hfree
  · rw [hi, Option.some.injEq] at hpick
    rw [hreply, hpick]

/-- **Without losses an address is reported once only if one server holds it.** -/
theorem Agreed.soleHolder {s : Network n} (h : s.Agreed) (hn : n ≤ 255) {r : Round n} (hr : r.Reliable) :
    s.SoleHolder r := by
  intro a hone i j hi hj
  obtain ⟨k, hk, hunique⟩ := (count_reported_eq_one_iff hr s a).1 hone
  have hfree := (h.of_replies hn hr hk).1
  have hik := hunique i (h.replies_of_holds hn hr hfree hi)
  have hjk := hunique j (h.replies_of_holds hn hr hfree hj)
  rw [hik, hjk]

/-- **A round without losses keeps the agreement.** -/
theorem Agreed.step {s : Network n} (h : s.Agreed) (hn : n ≤ 255) {r : Round n} (hr : r.Reliable) :
    (s.step r).1.Agreed := by
  cases hf : s.finished with
  | true =>
    simp only [Network.step, hf, if_true]
    exact h
  | false =>
    have hsole : (s.step r).1.Unique := (unique_step s r).2 ⟨h.sole, fun _ => h.soleHolder hn hr⟩
    have hzero := isAddressSet_step h.reserved r
    rw [step_of_not_finished hf] at hsole hzero ⊢
    refine ⟨hzero, ?_, hsole, ?_, ?_⟩
    · -- a set address was held before, or its only reply tells who holds it
      intro a ha hset
      simp only [Client.isAddressSet_task, Bool.or_eq_true, decide_eq_true_eq] at hset
      rcases hset with hset | hone
      · obtain ⟨i, hi⟩ := h.held a ha hset
        exact ⟨i, serverTask_of_set r hi hset⟩
      · obtain ⟨i, hi, -⟩ := (count_reported_eq_one_iff hr s a).1 hone
        exact ⟨i, (h.of_replies hn hr hi).2⟩
    · intro i hi
      have hi : (s.serverTask r i).1 = some 0 := hi
      rcases s.serverTask_cases r i with hkeep | ⟨a, hpick, hfree, -⟩
      · exact h.nonzero i (hkeep ▸ hi)
      · rw [hpick, Option.some.injEq] at hi
        rw [hi, h.reserved] at hfree
        cases hfree
    · -- with no address reported twice, every reply was the only one of its address
      intro hfinished i
      rcases h.turn hn hr i with ⟨a, hsettled, hkeep, -⟩ | ⟨a, -, hpick, hreply⟩
      · refine ⟨a, hkeep, ?_⟩
        rw [Client.isAddressSet_task, hsettled.2, Bool.true_or]
      · have hmost := Client.count_of_task hfinished a
        have hleast : 0 < (reported (s.received r)).count a := by
          rw [count_reported hr, Finset.card_pos]
          exact ⟨i, by simpa using hreply⟩
        have hone : (reported (s.received r)).count a = 1 := by omega
        refine ⟨a, hpick, ?_⟩
        rw [Client.isAddressSet_task, decide_eq_true hone, Bool.or_true]

theorem agreed_run (hn : n ≤ 255) {rounds : List (Round n)} (hr : ∀ r ∈ rounds, r.Reliable) :
    (Mealy.run Network.step (init n) rounds).Agreed :=
  Mealy.run_invariant Network.step rounds agreed_init (fun _ r hmem h => h.step hn (hr r hmem))

/-- When the client is finished, the servers' addresses and 0 are the ones it has set. -/
theorem Agreed.addresses {s : Network n} (h : s.Agreed) (hfinished : s.finished = true) :
    ∃ address : Fin n → UInt8, (∀ i, s.servers i = some (address i)) ∧ Function.Injective address ∧
      (∀ i, address i ≠ 0) ∧ ∀ a, s.identify.isAddressSet a = true ↔ a = 0 ∨ ∃ i, address i = a := by
  choose address haddress using h.finished hfinished
  refine ⟨address, fun i => (haddress i).1, ?_, ?_, ?_⟩
  · intro i j hij
    exact h.sole i j (address i) (haddress i).1 (hij ▸ (haddress j).1) (haddress i).2
  · intro i hzero
    exact h.nonzero i (hzero ▸ (haddress i).1)
  · intro a
    constructor
    · intro hset
      by_cases ha : a = 0
      · exact .inl ha
      · obtain ⟨i, hi⟩ := h.held a ha hset
        have heq := (haddress i).1
        rw [hi, Option.some.injEq] at heq
        exact .inr ⟨i, heq.symm⟩
    · rintro (rfl | ⟨i, rfl⟩)
      · exact h.reserved
      · exact (haddress i).2

/-- **Agreement at the end of a reliable discovery.**  With at most 255 servers and no message lost: a server whose
address the client has set keeps it through every round that follows and stays silent in it; each set address but 0 is
held by exactly one server; and when `client::task` has returned `true`, the servers hold distinct addresses other than
0, and these and 0 are the addresses set. -/
theorem discovery_agrees (hn : n ≤ 255) (rounds : List (Round n)) (hr : ∀ r ∈ rounds, r.Reliable) :
    (∀ front mid back, rounds = front ++ mid ++ back → ∀ i a,
      (Mealy.run step (init n) front).Settled i a →
        (Mealy.run step (init n) (front ++ mid)).Settled i a ∧
        ∀ r, (Mealy.run step (init n) (front ++ mid)).serverTask r i = (some a, none)) ∧
    ∀ front, front <+: rounds →
      (∀ a, a ≠ 0 → (Mealy.run step (init n) front).identify.isAddressSet a = true →
        ∃! i, (Mealy.run step (init n) front).servers i = some a) ∧
      ((Mealy.run step (init n) front).finished = true →
        ∃ address : Fin n → UInt8,
          (∀ i, (Mealy.run step (init n) front).servers i = some (address i)) ∧
          Function.Injective address ∧ (∀ i, address i ≠ 0) ∧
          ∀ a, (Mealy.run step (init n) front).identify.isAddressSet a = true ↔ a = 0 ∨ ∃ i, address i = a) := by
  constructor
  · intro front mid back _ i a hsettled
    have hkept : (Mealy.run Network.step (init n) (front ++ mid)).Settled i a := by
      rw [Mealy.run_append]
      exact Mealy.run_invariant Network.step (P := fun t => t.Settled i a) mid hsettled (fun _ r _ h => h.step r)
    exact ⟨hkept, serverTask_of_settled hkept⟩
  · rintro front ⟨back, rfl⟩
    have h := agreed_run hn (fun r hmem => hr r (List.mem_append_left back hmem))
    refine ⟨?_, ?_⟩
    · intro a ha hset
      obtain ⟨i, hi⟩ := h.held a ha hset
      exact ⟨i, hi, fun j hj => h.sole j i a hj hi hset⟩
    · exact h.addresses

/-- Two servers that draw alike in the first round and apart in the second. -/
def exampleRounds : List (Round 2) :=
  [{ hears := fun _ => true, draw := fun _ => 0, fate := fun _ => .intact, order := Equiv.refl _ },
   { hears := fun _ => true, draw := fun i => UInt32.ofNat (4 * i), fate := fun _ => .intact, order := Equiv.refl _ }]

theorem exampleRounds_reliable : ∀ r ∈ exampleRounds, r.Reliable := by
  intro r hr
  simp only [exampleRounds, List.mem_cons, List.not_mem_nil, or_false] at hr
  rcases hr with rfl | rfl
  · exact ⟨fun _ => rfl, fun _ => rfl⟩
  · exact ⟨fun _ => rfl, fun _ => rfl⟩

theorem discovery_agrees_two_servers :
    (Mealy.run step (init 2) exampleRounds).finished = true ∧
    ∃ address : Fin 2 → UInt8,
      (∀ i, (Mealy.run step (init 2) exampleRounds).servers i = some (address i)) ∧
      Function.Injective address ∧ (∀ i, address i ≠ 0) ∧
      ∀ a, (Mealy.run step (init 2) exampleRounds).identify.isAddressSet a = true ↔ a = 0 ∨ ∃ i, address i = a :=
  have hfinished : (Mealy.run step (init 2) exampleRounds).finished = true := by decide +kernel
  ⟨hfinished, ((discovery_agrees (by decide) exampleRounds exampleRounds_reliable).2 exampleRounds
    (List.prefix_refl exampleRounds)).2 hfinished⟩

end Network
end Discovery
end FlipFlop
