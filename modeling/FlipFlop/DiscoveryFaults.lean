import FlipFlop.DiscoveryAgreement
/-!
# DiscoveryFaults — discovery when messages are lost (`data/examples/discovery/main.rs`)

Requests may go unheard, replies may be lost or garbled, in any round: two servers may then come to hold one address
(`collision_not_unique`), but no address is ever set that nobody holds (`set_addresses_accounted`), and a client that
finishes too early has missed no more than the last round lost (`finished_unless_lost`).
-/
namespace FlipFlop
namespace Discovery

open Rust

variable {n : Nat}

/-! ## What the client has found -/

/-- `found`, as `client::task` prints it. -/
def Client.found (identify : Identify) : Except Panic Int := do
  let items ← identify.iter.collect AddressesIter.fuel
  return items.foldl (fun a e => if e then a + 1 else a) 0 - 1

theorem foldl_count : ∀ (items : List Bool) (k : Int),
    items.foldl (fun a e => if e then a + 1 else a) k = k + items.count true
  | [], k => by simp
  | item :: items, k => by
    rw [List.foldl_cons, foldl_count items]
    cases item with
    | false => rw [List.count_cons_of_ne (by decide)]; rfl
    | true =>
      rw [List.count_cons_self, if_pos rfl]
      omega

/-- The addresses set and those not set are 256. -/
theorem Identify.ncard_addressSet (identify : Identify) :
    identify.addressSet.ncard + identify.spare.length = MAX_ADDRESSES := by
  have hcompl : identify.unset = Set.compl identify.addressSet := by
    ext a
    show identify.isAddressSet a = false ↔ ¬ identify.isAddressSet a = true
    simp
  have hcard : Nat.card UInt8 = MAX_ADDRESSES := by
    rw [Nat.card_eq_fintype_card, ← FinEnum.card_eq_fintypeCard, FinEnum.card_UInt8]
    rfl
  rw [← identify.ncard_unset, hcompl]
  exact (Set.ncard_add_ncard_compl identify.addressSet).trans hcard

/-- **It is one less than the number of addresses set.** -/
theorem Client.found_eq (identify : Identify) : found identify = .ok ((identify.addressSet.ncard : Int) - 1) := by
  have hsum := identify.ncard_addressSet
  have hlength := List.length_eq_countP_add_countP (fun a => identify.isAddressSet (UInt8.ofNat a))
    (l := List.range MAX_ADDRESSES)
  have hspare : (List.range MAX_ADDRESSES).countP (fun a => ¬ identify.isAddressSet (UInt8.ofNat a) = true)
      = identify.spare.length := by
    rw [List.countP_eq_length_filter, Identify.spare]
    congr 2
    funext a
    simp
  have hcount : ((List.range MAX_ADDRESSES).map (fun a => identify.isAddressSet (UInt8.ofNat a))).count true
      = identify.addressSet.ncard := by
    rw [List.count, List.countP_map]
    rw [List.length_range, hspare] at hlength
    have heq : (fun x => x == true) ∘ (fun a => identify.isAddressSet (UInt8.ofNat a))
        = fun a => identify.isAddressSet (UInt8.ofNat a) := by
      funext a
      simp
    rw [heq]
    omega
  unfold found
  rw [collect_iter]
  show Except.ok (_ - 1) = _
  rw [foldl_count, hcount, Int.zero_add]

/-! ## When the client is finished -/

theorem Client.finished_note : ∀ (received : List (Option Identified)) (st : Vector Nat MAX_ADDRESSES × Bool),
    (received.foldl note st).2 = true ↔ st.2 = true ∧ none ∉ received
  | [], st => by simp
  | none :: received, st => by
    rw [List.foldl_cons, finished_note received]
    simp [note]
  | some identified :: received, st => by
    rw [List.foldl_cons, finished_note received]
    simp [note]

theorem Client.finished_settle (counts : Nat → Nat) : ∀ (l : List Nat) (st : Identify × Bool), st.2 = true →
    (∀ a ∈ l, counts a ≤ 1) → ((l.map (fun a => (counts a, a))).foldl settle st).2 = true
  | [], _, hst, _ => hst
  | a :: l, st, hst, hl => by
    have ha : ¬ counts a > 1 := Nat.not_lt.2 (hl a List.mem_cons_self)
    rw [List.map_cons, List.foldl_cons]
    refine finished_settle counts l _ ?_ (fun b hb => hl b (List.mem_cons_of_mem a hb))
    unfold settle
    simp only [if_neg ha]
    split
    · exact hst
    · exact hst

/-- **`client::task` returns `true` exactly when nothing that arrived was garbled and no address came twice.** -/
theorem Client.finished_task_iff (identify : Identify) (received : List (Option Identified)) :
    (task identify received).2 = true ↔ none ∉ received ∧ ∀ a, (reported received).count a ≤ 1 := by
  constructor
  · intro h
    refine ⟨?_, count_of_task h⟩
    rw [task_eq] at h
    have hnote := (counts_of_settle (fun a => (reported received).count (UInt8.ofNat a)) _ _ h).1
    exact ((finished_note received _).1 hnote).2
  · rintro ⟨hgarbled, htwice⟩
    rw [task_eq]
    exact finished_settle (fun a => (reported received).count (UInt8.ofNat a)) _ _
      ((finished_note received _).2 ⟨rfl, hgarbled⟩) (fun a _ => htwice (UInt8.ofNat a))

namespace Network

/-! ## What every round keeps, whatever it loses -/

theorem serverTask_of_replies {s : Network n} {r : Round n} {i : Fin n} {a : UInt8} (h : s.replies r i = some a) :
    (s.serverTask r i).1 = some a := by
  unfold replies serverTask at *
  rcases Server.task_cases (if r.hears i then some s.identify else none) (s.servers i) (r.draw i) with
    htask | ⟨identify, identified, -, -, -, htask⟩
  · rw [htask] at h
    cases h
  · rw [htask] at h ⊢
    exact h

/-- An address reported is one that a server replied with. -/
theorem replies_of_mem_reported {s : Network n} {r : Round n} {a : UInt8} (h : a ∈ reported (s.received r)) :
    ∃ i, s.replies r i = some a := by
  obtain ⟨packet, hpacket, ha⟩ := List.mem_filterMap.1 h
  obtain ⟨i, -, hi⟩ := List.mem_filterMap.1 hpacket
  obtain ⟨identified, hreply, hdeliver⟩ := Option.bind_eq_some_iff.1 hi
  refine ⟨i, ?_⟩
  unfold replies
  rw [hreply]
  cases hfate : r.fate i with
  | intact =>
    rw [hfate] at hdeliver
    cases hdeliver
    exact ha
  | garbled =>
    rw [hfate] at hdeliver
    cases hdeliver
    cases ha
  | lost =>
    rw [hfate] at hdeliver
    cases hdeliver

/-- Each address set but the client's own is held, and no server holds that one. -/
structure Accounted (s : Network n) : Prop where
  reserved : s.identify.isAddressSet 0 = true
  held : ∀ a, a ≠ 0 → s.identify.isAddressSet a = true → ∃ i, s.Settled i a
  nonzero : ∀ i, s.servers i ≠ some 0

theorem isAddressSet_init (n : Nat) (a : UInt8) : (init n).identify.isAddressSet a = true ↔ a = 0 := by
  constructor
  · intro hset
    by_contra ha
    obtain ⟨i, hi⟩ := (agreed_init (n := n)).held a ha hset
    cases hi
  · rintro rfl
    exact (agreed_init (n := n)).reserved

theorem accounted_init : (init n).Accounted where
  reserved := (isAddressSet_init n 0).2 rfl
  held a ha hset := absurd ((isAddressSet_init n a).1 hset) ha
  nonzero := agreed_init.nonzero

/-- **Every round keeps the accounts**: the one intact reply that reports an address leaves a server that holds it. -/
theorem Accounted.step {s : Network n} (h : s.Accounted) (r : Round n) : (s.step r).1.Accounted := by
  refine ⟨isAddressSet_step h.reserved r, ?_, ?_⟩
  · intro a ha hset
    cases hf : s.finished with
    | true =>
      simp only [Network.step, hf, if_true] at hset ⊢
      exact h.held a ha hset
    | false =>
      rw [step_of_not_finished hf] at hset ⊢
      have hcase := hset
      simp only [Client.isAddressSet_task, Bool.or_eq_true, decide_eq_true_eq] at hcase
      rcases hcase with hold | hone
      · obtain ⟨i, hi⟩ := h.held a ha hold
        exact ⟨i, serverTask_of_set r hi.1 hold, hset⟩
      · have hmem : a ∈ reported (s.received r) := List.count_pos_iff.1 (by omega)
        obtain ⟨i, hi⟩ := replies_of_mem_reported hmem
        exact ⟨i, serverTask_of_replies hi, hset⟩
  · intro i hi
    cases hf : s.finished with
    | true =>
      simp only [Network.step, hf, if_true] at hi
      exact h.nonzero i hi
    | false =>
      rw [step_of_not_finished hf] at hi
      rcases s.serverTask_cases r i with hkeep | ⟨a, hpick, hfree, -⟩
      · exact h.nonzero i (hkeep.symm.trans hi)
      · cases hpick.symm.trans hi
        rw [h.reserved] at hfree
        cases hfree

theorem accounted_run (rounds : List (Round n)) : (Mealy.run Network.step (init n) rounds).Accounted :=
  Mealy.run_invariant Network.step rounds accounted_init (fun _ r _ h => h.step r)

/-- Addresses that some servers hold are, with the client's own, at most one more than these servers. -/
theorem ncard_addressSet_le {s : Network n} (holders : Finset (Fin n))
    (h : ∀ a, a ≠ 0 → s.identify.isAddressSet a = true → ∃ i ∈ holders, s.servers i = some a) :
    s.identify.addressSet.ncard ≤ holders.card + 1 := by
  have hsub : s.identify.addressSet ⊆ ↑(insert 0 (holders.image (fun i => (s.servers i).getD 0))) := by
    intro a ha
    rw [Finset.mem_coe, Finset.mem_insert]
    by_cases hzero : a = 0
    · exact .inl hzero
    · obtain ⟨i, hi, hheld⟩ := h a hzero ha
      exact .inr (Finset.mem_image.2 ⟨i, hi, by rw [hheld, Option.getD_some]⟩)
  calc s.identify.addressSet.ncard
    _ ≤ (insert 0 (holders.image (fun i => (s.servers i).getD 0))).card := by
        rw [← Set.ncard_coe_finset]
        exact Set.ncard_le_ncard hsub
    _ ≤ (holders.image (fun i => (s.servers i).getD 0)).card + 1 := Finset.card_insert_le _ _
    _ ≤ holders.card + 1 := Nat.add_le_add_right Finset.card_image_le 1

/-- **A server that is not settled has an address to pick**, in a network of at most 255 servers. -/
theorem Accounted.spare_ne_nil {s : Network n} (h : s.Accounted) (hn : n ≤ 255) {i : Fin n}
    (hi : ∀ a, ¬ s.Settled i a) : s.identify.spare ≠ [] := by
  have hle := ncard_addressSet_le (Finset.univ.erase i) (fun a ha hset => by
    obtain ⟨j, hj⟩ := h.held a ha hset
    refine ⟨j, Finset.mem_erase.2 ⟨?_, Finset.mem_univ j⟩, hj.1⟩
    rintro rfl
    exact hi a hj)
  have hsum := s.identify.ncard_addressSet
  have h256 : MAX_ADDRESSES = 256 := rfl
  rw [Finset.card_erase_of_mem (Finset.mem_univ i), Finset.card_univ, Fintype.card_fin] at hle
  have hpos := i.pos
  intro hnil
  rw [hnil, List.length_nil] at hsum
  omega

/-! ## Whole runs -/

theorem isAddressSet_step_iff (s : Network n) (r : Round n) (a : UInt8) :
    (s.step r).1.identify.isAddressSet a = true ↔
      s.identify.isAddressSet a = true ∨ s.finished = false ∧ (reported (s.received r)).count a = 1 := by
  cases hf : s.finished with
  | true => simp [step, hf]
  | false =>
    rw [step_of_not_finished hf, Client.isAddressSet_task]
    simp

/-- **Every set address has its reply and its holder, whatever is lost.**  In any rounds: an address other than 0 is set
exactly when, in one of them, before the client was finished, one intact reply and no more reported it; some server then
holds it, and a server that holds a set address keeps it; no server holds 0; and `found`, as the client prints it, is at
most the number of servers. -/
theorem set_addresses_accounted (rounds : List (Round n)) :
    (∀ a, a ≠ 0 →
      ((Mealy.run step (init n) rounds).identify.isAddressSet a = true ↔
        ∃ front r back, rounds = front ++ r :: back ∧ (Mealy.run step (init n) front).finished = false ∧
          (reported ((Mealy.run step (init n) front).received r)).count a = 1) ∧
      ((Mealy.run step (init n) rounds).identify.isAddressSet a = true →
        ∃ i, (Mealy.run step (init n) rounds).servers i = some a)) ∧
    (∀ front back, rounds = front ++ back → ∀ i a, (Mealy.run step (init n) front).Settled i a →
      (Mealy.run step (init n) rounds).Settled i a) ∧
    (∀ i, (Mealy.run step (init n) rounds).servers i ≠ some 0) ∧
    ∃ found : Nat, Client.found (Mealy.run step (init n) rounds).identify = .ok found ∧ found ≤ n := by
  have hrun := accounted_run rounds
  refine ⟨?_, ?_, hrun.nonzero, ?_⟩
  · intro a ha
    constructor
    · have hinit : ¬ (init n).identify.isAddressSet a = true := fun hset => ha ((isAddressSet_init n a).1 hset)
      rw [Mealy.run_exists step (P := fun s => s.identify.isAddressSet a = true)
        (fun s r => s.isAddressSet_step_iff r a)]
      exact or_iff_right hinit
    · intro hset
      obtain ⟨i, hi⟩ := hrun.held a ha hset
      exact ⟨i, hi.1⟩
  · rintro front back rfl i a hsettled
    rw [Mealy.run_append]
    exact Mealy.run_invariant step (P := fun s => s.Settled i a) back hsettled (fun _ r _ h => h.step r)
  · have hle := ncard_addressSet_le Finset.univ (fun a ha hset => by
      obtain ⟨i, hi⟩ := hrun.held a ha hset
      exact ⟨i, Finset.mem_univ i, hi.1⟩)
    have hpos : 0 < (Mealy.run step (init n) rounds).identify.addressSet.ncard :=
      (Set.ncard_pos).2 ⟨0, hrun.reserved⟩
    rw [Finset.card_univ, Fintype.card_fin] at hle
    refine ⟨(Mealy.run step (init n) rounds).identify.addressSet.ncard - 1, ?_, by omega⟩
    rw [Client.found_eq]
    congr 1
    omega

/-- A server that hears the client, and is not settled, replies with the address its draw picks. -/
theorem replies_of_heard {s : Network n} {r : Round n} {i : Fin n} (hears : r.hears i = true)
    (hi : ∀ a, ¬ s.Settled i a) (hspare : s.identify.spare ≠ []) :
    ∃ a : UInt8, s.identify.spare[(r.draw i).toNat % s.identify.spare.length]? = some a.toNat ∧
      s.replies r i = some a := by
  obtain ⟨a, hget, hpick⟩ := withRandomAddress_of_spare hspare (r.draw i) 0b00000010
  have hfree : ((s.servers i).map (fun sa => !s.identify.isAddressSet sa)).getD true = true := by
    cases hold : s.servers i with
    | none => rfl
    | some b =>
      have hb := hi b
      simp only [Settled, hold, true_and] at hb
      simpa using hb
  refine ⟨a, hget, ?_⟩
  unfold replies serverTask Server.task
  simp only [hears, if_true, hfree, hpick]
  rfl

/-- What a server replied, and was not lost, arrived as it was or garbled. -/
theorem received_of_replies {s : Network n} {r : Round n} {i : Fin n} {a : UInt8} (hi : s.replies r i = some a)
    (hfate : r.fate i ≠ .lost) : a ∈ reported (s.received r) ∨ none ∈ s.received r := by
  obtain ⟨identified, hreply, ha⟩ := Option.map_eq_some_iff.1 hi
  have hmem : i ∈ (List.finRange n).map r.order := by
    rw [(Equiv.Perm.map_finRange_perm r.order).mem_iff]
    exact List.mem_finRange i
  cases hcase : r.fate i with
  | intact =>
    left
    refine List.mem_filterMap.2 ⟨some identified, List.mem_filterMap.2 ⟨i, hmem, ?_⟩, congrArg some ha⟩
    rw [hreply, hcase]
    rfl
  | garbled =>
    right
    refine List.mem_filterMap.2 ⟨i, hmem, ?_⟩
    rw [hreply, hcase]
    rfl
  | lost => exact absurd hcase hfate

/-- **A client that finishes too early has only missed what its last round lost.**  In any run of at most 255 servers, a
server that is not settled when the client finishes did not hear the last request, or its reply to it was lost. -/
theorem finished_unless_lost (hn : n ≤ 255) (front : List (Round n)) (r : Round n)
    (hbefore : (Mealy.run step (init n) front).finished = false)
    (hafter : (Mealy.run step (init n) (front ++ [r])).finished = true) (i : Fin n)
    (hi : ∀ a, ¬ (Mealy.run step (init n) (front ++ [r])).Settled i a) : r.hears i = false ∨ r.fate i = .lost := by
  have hkeep : ∀ a, ¬ (Mealy.run step (init n) front).Settled i a := by
    intro a hsettled
    apply hi a
    rw [Mealy.run_concat]
    exact hsettled.step r
  rw [Mealy.run_concat, step_of_not_finished hbefore] at hafter hi
  obtain ⟨hgarbled, htwice⟩ := (Client.finished_task_iff _ _).1 hafter
  by_contra hneither
  rw [not_or, Bool.not_eq_false] at hneither
  obtain ⟨a, -, hreply⟩ := replies_of_heard hneither.1 hkeep ((accounted_run front).spare_ne_nil hn hkeep)
  have hreported := (received_of_replies hreply hneither.2).resolve_right hgarbled
  have hone : (reported ((Mealy.run step (init n) front).received r)).count a = 1 :=
    Nat.le_antisymm (htwice a) (List.count_pos_iff.2 hreported)
  refine hi a ⟨serverTask_of_replies hreply, ?_⟩
  rw [Client.isAddressSet_task, decide_eq_true hone, Bool.or_true]

/-- Two servers draw apart, and one of the two replies is lost. -/
def exampleEarly : Round 2 :=
  { hears := fun _ => true, draw := fun i => UInt32.ofNat (4 * i), fate := fun i => if i.val = 0 then .intact else .lost
    order := Equiv.refl _ }

theorem finished_unless_lost_reply :
    (Mealy.run step (init 2) ([] ++ [exampleEarly])).finished = true ∧
    (∀ a, ¬ (Mealy.run step (init 2) ([] ++ [exampleEarly])).Settled 1 a) ∧
    (exampleEarly.hears 1 = false ∨ exampleEarly.fate 1 = .lost) := by
  have hfinished : (Mealy.run step (init 2) ([] ++ [exampleEarly])).finished = true := by decide +kernel
  have hservers : (Mealy.run step (init 2) ([] ++ [exampleEarly])).servers 1 = some 5 := by decide +kernel
  have hset : (Mealy.run step (init 2) ([] ++ [exampleEarly])).identify.isAddressSet 5 = false := by decide +kernel
  have hunsettled : ∀ a, ¬ (Mealy.run step (init 2) ([] ++ [exampleEarly])).Settled 1 a := by
    rintro a ⟨hheld, ha⟩
    cases hservers.symm.trans hheld
    exact Bool.false_ne_true (hset.symm.trans ha)
  exact ⟨hfinished, hunsettled, finished_unless_lost (by decide) [] exampleEarly rfl hfinished 1 hunsettled⟩

/-! ## A client that starts again -/

/-- `main` is run again, and the servers are as they were. -/
def restart (s : Network n) : Network n := { init n with servers := s.servers }

theorem Accounted.agreed_restart {s : Network n} (h : s.Accounted) : s.restart.Agreed where
  reserved := (isAddressSet_init n 0).2 rfl
  held a ha hset := absurd ((isAddressSet_init n a).1 hset) ha
  sole i j a hi _ hset := by
    -- nothing is set yet but 0, which no server holds
    cases (isAddressSet_init n a).1 hset
    exact absurd hi (h.nonzero i)
  nonzero := h.nonzero
  finished hfinished := by cases hfinished

/-- **Starting again repairs a discovery that losses have spoiled.**  Whatever rounds went before, with two servers
perhaps at one address: once the client has started again and no message is lost any more, the servers hold distinct
addresses when it is finished, and these and 0 are the addresses set. -/
theorem rediscovery_agrees (hn : n ≤ 255) (spoiled rounds : List (Round n)) (hr : ∀ r ∈ rounds, r.Reliable)
    (hfinished : (Mealy.run step (Mealy.run step (init n) spoiled).restart rounds).finished = true) :
    ∃ address : Fin n → UInt8,
      (∀ i, (Mealy.run step (Mealy.run step (init n) spoiled).restart rounds).servers i = some (address i)) ∧
      Function.Injective address ∧ (∀ i, address i ≠ 0) ∧
      ∀ a, (Mealy.run step (Mealy.run step (init n) spoiled).restart rounds).identify.isAddressSet a = true ↔
        a = 0 ∨ ∃ i, address i = a := by
  have hrestart := (accounted_run spoiled).agreed_restart
  have h := Mealy.run_invariant step rounds hrestart (fun _ r hmem h => h.step hn (hr r hmem))
  exact h.addresses hfinished

theorem rediscovery_agrees_collision :
    ¬ (Mealy.run step (init 2) [collision .lost]).Unique ∧
    ∃ address : Fin 2 → UInt8, Function.Injective address ∧
      ∀ i, (Mealy.run step (Mealy.run step (init 2) [collision .lost]).restart exampleRounds).servers i
        = some (address i) := by
  obtain ⟨address, hheld, hinj, -⟩ := rediscovery_agrees (by decide) [collision .lost] exampleRounds
    exampleRounds_reliable (by decide +kernel)
  refine ⟨fun hunique => ?_, address, hinj, hheld⟩
  exact absurd (hunique 0 1 1 (by decide +kernel) (by decide +kernel) (by decide +kernel)) (by decide)

end Network
end Discovery
end FlipFlop
