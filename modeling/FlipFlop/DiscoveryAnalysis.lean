import FlipFlop.DiscoveryFaults
import FlipFlop.Occupancy
/-!
# DiscoveryAnalysis — how fast discovery is (`data/examples/discovery/main.rs`)

A round without losses settles the servers that are alone in what they pick, and is the last one when all are
(`discovery_progress`).  Counted over all the ways the draws can fall, that gives the probability that a round sees a
collision and the servers it settles on average (`next_round_chances`), exactly; the example `discovery_analysis`
estimates both in floating point.
-/
namespace FlipFlop
namespace Discovery

/-! ## Who is still to be settled -/

variable {n : Nat}

namespace Network

def unsettled (s : Network n) : Finset (Fin n) :=
  Finset.univ.filter (fun i => (s.servers i).any s.identify.isAddressSet = false)

theorem mem_unsettled {s : Network n} {i : Fin n} : i ∈ s.unsettled ↔ ∀ a, ¬ s.Settled i a := by
  simp only [unsettled, Finset.mem_filter, Finset.mem_univ, true_and, Settled, not_and]
  cases s.servers i with
  | none => simp
  | some b =>
    simp only [Option.any_some, Option.some.injEq]
    constructor
    · rintro hb a rfl
      simp [hb]
    · intro h
      simpa using h b rfl

theorem settled_of_not_mem {s : Network n} {i : Fin n} (h : i ∉ s.unsettled) : ∃ a, s.Settled i a := by
  simpa [mem_unsettled] using h

/-- **Without losses the addresses set are the settled servers' and the client's own.** -/
theorem Agreed.ncard_addressSet {s : Network n} (h : s.Agreed) :
    s.identify.addressSet.ncard + s.unsettled.card = n + 1 := by
  have hset : s.identify.addressSet = ↑(insert 0 (s.unsettledᶜ.image (fun i => (s.servers i).getD 0))) := by
    ext a
    rw [Finset.mem_coe, Finset.mem_insert, Finset.mem_image]
    constructor
    · intro ha
      by_cases hzero : a = 0
      · exact .inl hzero
      · obtain ⟨i, hi⟩ := h.held a hzero ha
        refine .inr ⟨i, Finset.mem_compl.2 (fun hmem => mem_unsettled.1 hmem a ⟨hi, ha⟩), ?_⟩
        rw [hi, Option.getD_some]
    · rintro (rfl | ⟨i, hi, rfl⟩)
      · exact h.reserved
      · obtain ⟨a, ha⟩ := settled_of_not_mem (Finset.mem_compl.1 hi)
        rw [ha.1]
        exact ha.2
  have hinj : Set.InjOn (fun i => (s.servers i).getD 0) ↑s.unsettledᶜ := by
    intro i hi j hj hij
    obtain ⟨a, ha⟩ := settled_of_not_mem (Finset.mem_compl.1 (Finset.mem_coe.1 hi))
    obtain ⟨b, hb⟩ := settled_of_not_mem (Finset.mem_compl.1 (Finset.mem_coe.1 hj))
    simp only [ha.1, hb.1, Option.getD_some] at hij
    exact h.sole i j a ha.1 (hij ▸ hb.1) ha.2
  have hzero : 0 ∉ s.unsettledᶜ.image (fun i => (s.servers i).getD 0) := by
    rw [Finset.mem_image]
    rintro ⟨i, hi, hi0⟩
    obtain ⟨a, ha⟩ := settled_of_not_mem (Finset.mem_compl.1 hi)
    rw [ha.1, Option.getD_some] at hi0
    exact h.nonzero i (hi0 ▸ ha.1)
  have hle : s.unsettled.card ≤ n := by
    simpa using Finset.card_le_univ s.unsettled
  rw [hset, Set.ncard_coe_finset, Finset.card_insert_of_notMem hzero, Finset.card_image_of_injOn hinj,
    Finset.card_compl, Fintype.card_fin]
  omega

/-- As many addresses are left for the unsettled servers as if there were no others. -/
theorem Agreed.length_spare {s : Network n} (h : s.Agreed) : s.identify.spare.length + n = 255 + s.unsettled.card := by
  have hset := h.ncard_addressSet
  have hsum := s.identify.ncard_addressSet
  have h256 : MAX_ADDRESSES = 256 := rfl
  omega

/-! ## A round without losses settles the servers alone in their picks -/

/-- Where an unsettled server's draw falls among the addresses not set. -/
def picks (s : Network n) (r : Round n) (i : {i // i ∈ s.unsettled}) : ℕ := (r.draw i).toNat % s.identify.spare.length

theorem replies_of_settled {s : Network n} (r : Round n) {i : Fin n} (hi : i ∉ s.unsettled) : s.replies r i = none := by
  obtain ⟨a, ha⟩ := settled_of_not_mem hi
  rw [replies, serverTask_of_settled ha]
  rfl

section Round

variable {s : Network n} (h : s.Agreed) (hn : n ≤ 255) {r : Round n} (hr : r.Reliable)
include h hn hr

theorem Agreed.replies_unsettled (i : {i // i ∈ s.unsettled}) :
    ∃ a : UInt8, s.identify.spare[s.picks r i]? = some a.toNat ∧ s.replies r i = some a :=
  replies_of_heard (hr.hears i) (mem_unsettled.1 i.2) (h.spare_ne_nil hn (mem_unsettled.1 i.2))

/-- Servers reply alike exactly when they pick alike. -/
theorem Agreed.replies_eq_iff (i j : {i // i ∈ s.unsettled}) :
    s.replies r i = s.replies r j ↔ s.picks r i = s.picks r j := by
  obtain ⟨a, ha, hi⟩ := h.replies_unsettled hn hr i
  obtain ⟨b, hb, hj⟩ := h.replies_unsettled hn hr j
  rw [hi, hj]
  constructor
  · rintro hab
    cases hab
    obtain ⟨hlt, -⟩ := List.getElem?_eq_some_iff.1 ha
    exact (List.getElem?_inj hlt s.identify.nodup_spare).1 (ha.trans hb.symm)
  · intro heq
    rw [heq, hb, Option.some.injEq] at ha
    rw [UInt8.toNat_inj.1 ha]

/-- Its reply is the only one with its address exactly when the server is alone in its pick. -/
theorem Agreed.count_eq_one_iff {i : {i // i ∈ s.unsettled}} {a : UInt8} (hi : s.replies r i = some a) :
    (reported (s.received r)).count a = 1 ↔ i ∈ Occupancy.alone (s.picks r) := by
  rw [count_reported_eq_one_iff hr, Occupancy.mem_alone]
  constructor
  · rintro ⟨k, -, hunique⟩ j hj
    have hjk := hunique j (((h.replies_eq_iff hn hr j i).2 hj).trans hi)
    have hik := hunique i hi
    exact Subtype.ext (hjk.trans hik.symm)
  · intro halone
    refine ⟨i, hi, ?_⟩
    intro j (hj : s.replies r j = some a)
    have hmem : j ∈ s.unsettled := by
      by_contra hsettled
      rw [replies_of_settled r hsettled] at hj
      cases hj
    have heq := (h.replies_eq_iff hn hr ⟨j, hmem⟩ i).1 (hj.trans hi.symm)
    exact congrArg Subtype.val (halone ⟨j, hmem⟩ heq)

/-- **Who is unsettled after the round was so before, and was not alone in its pick.** -/
theorem Agreed.mem_unsettled_step (hf : s.finished = false) (i : Fin n) :
    i ∈ (s.step r).1.unsettled ↔ ∃ hi : i ∈ s.unsettled, ⟨i, hi⟩ ∉ Occupancy.alone (s.picks r) := by
  constructor
  · intro hafter
    have hi : i ∈ s.unsettled := by
      by_contra hsettled
      obtain ⟨a, ha⟩ := settled_of_not_mem hsettled
      exact mem_unsettled.1 hafter a (ha.step r)
    obtain ⟨a, -, hreply⟩ := h.replies_unsettled hn hr ⟨i, hi⟩
    refine ⟨hi, fun halone => mem_unsettled.1 hafter a ?_⟩
    have hone := (h.count_eq_one_iff hn hr hreply).2 halone
    rw [step_of_not_finished hf]
    refine ⟨serverTask_of_replies hreply, ?_⟩
    rw [Client.isAddressSet_task, decide_eq_true hone, Bool.or_true]
  · rintro ⟨hi, halone⟩
    obtain ⟨a, -, hreply⟩ := h.replies_unsettled hn hr ⟨i, hi⟩
    rw [mem_unsettled, step_of_not_finished hf]
    rintro b ⟨hheld, hset⟩
    cases (serverTask_of_replies hreply).symm.trans hheld
    simp only [Client.isAddressSet_task, Bool.or_eq_true, decide_eq_true_eq] at hset
    rcases hset with hold | hone
    · have hfree := (h.of_replies hn hr hreply).1
      exact Bool.false_ne_true (hfree.symm.trans hold)
    · exact halone ((h.count_eq_one_iff hn hr hreply).1 hone)

theorem Agreed.card_unsettled_step (hf : s.finished = false) :
    (s.step r).1.unsettled.card + (Occupancy.alone (s.picks r)).card = s.unsettled.card := by
  have himage : (s.step r).1.unsettled = (Occupancy.alone (s.picks r))ᶜ.image Subtype.val := by
    ext i
    rw [h.mem_unsettled_step hn hr hf i, Finset.mem_image]
    constructor
    · rintro ⟨hi, halone⟩
      exact ⟨⟨i, hi⟩, Finset.mem_compl.2 halone, rfl⟩
    · rintro ⟨⟨j, hj⟩, halone, rfl⟩
      exact ⟨hj, Finset.mem_compl.1 halone⟩
  rw [himage, Finset.card_image_of_injective _ Subtype.val_injective, Nat.add_comm, Finset.card_add_card_compl,
    Fintype.card_coe]

/-- **The round is the last exactly when no two servers pick alike.** -/
theorem Agreed.finished_step_iff (hf : s.finished = false) :
    (s.step r).1.finished = true ↔ Function.Injective (s.picks r) := by
  have hgarbled : none ∉ s.received r := by
    intro hnone
    obtain ⟨i, -, hi⟩ := List.mem_filterMap.1 hnone
    rw [hr.intact i] at hi
    cases hreply : (s.serverTask r i).2 with
    | none =>
      rw [hreply] at hi
      cases hi
    | some identified =>
      rw [hreply] at hi
      cases hi
  rw [step_of_not_finished hf, Client.finished_task_iff]
  constructor
  · rintro ⟨-, htwice⟩ i j hij
    obtain ⟨a, -, hi⟩ := h.replies_unsettled hn hr i
    have hj := ((h.replies_eq_iff hn hr i j).2 hij).symm.trans hi
    have hle := htwice a
    rw [count_reported hr, Finset.card_le_one] at hle
    exact Subtype.ext (hle i (by simpa using hi) j (by simpa using hj))
  · intro hinj
    refine ⟨hgarbled, fun a => ?_⟩
    by_cases hcount : (reported (s.received r)).count a = 0
    · omega
    · obtain ⟨i, hi⟩ := replies_of_mem_reported (List.count_pos_iff.1 (Nat.pos_iff_ne_zero.2 hcount))
      have hmem : i ∈ s.unsettled := by
        by_contra hsettled
        rw [replies_of_settled r hsettled] at hi
        cases hi
      have halone : (⟨i, hmem⟩ : {i // i ∈ s.unsettled}) ∈ Occupancy.alone (s.picks r) :=
        Occupancy.mem_alone.2 (fun j hj => hinj hj)
      exact Nat.le_of_eq ((h.count_eq_one_iff hn hr hi).2 halone)

end Round

/-- **How a discovery without losses gets on.**  With at most 255 servers and no message lost, `found` counts the
servers that are settled, and as many addresses as servers have been used up; a round settles those that are alone in
their picks and no other; and it is the last exactly when no two servers pick alike. -/
theorem discovery_progress (hn : n ≤ 255) (front : List (Round n)) (r : Round n) (hfront : ∀ r ∈ front, r.Reliable)
    (hr : r.Reliable) (hbefore : (Mealy.run step (init n) front).finished = false) :
    Client.found (Mealy.run step (init n) front).identify
      = .ok ((n : Int) - (Mealy.run step (init n) front).unsettled.card) ∧
    (Mealy.run step (init n) front).identify.spare.length + n
      = 255 + (Mealy.run step (init n) front).unsettled.card ∧
    (∀ i, i ∈ (Mealy.run step (init n) (front ++ [r])).unsettled ↔
      ∃ hi : i ∈ (Mealy.run step (init n) front).unsettled,
        ⟨i, hi⟩ ∉ Occupancy.alone ((Mealy.run step (init n) front).picks r)) ∧
    ((Mealy.run step (init n) (front ++ [r])).finished = true ↔
      Function.Injective ((Mealy.run step (init n) front).picks r)) := by
  have h := agreed_run hn hfront
  rw [Mealy.run_concat]
  refine ⟨?_, h.length_spare, h.mem_unsettled_step hn hr hbefore, h.finished_step_iff hn hr hbefore⟩
  have hsum := h.ncard_addressSet
  rw [Client.found_eq]
  congr 1
  omega

theorem discovery_progress_two_servers :
    (Mealy.run step (init 2) (exampleRounds.take 1)).unsettled = {0, 1} ∧
    (Mealy.run step (init 2) (exampleRounds.take 1 ++ [exampleRounds[1]])).finished = true := by
  have hreliable := exampleRounds_reliable
  have hbefore : (Mealy.run step (init 2) (exampleRounds.take 1)).finished = false := by decide +kernel
  obtain ⟨-, -, -, hlast⟩ := discovery_progress (by decide) (exampleRounds.take 1) exampleRounds[1]
    (fun r hr => hreliable r (List.mem_of_mem_take hr)) (hreliable _ (List.getElem_mem _)) hbefore
  refine ⟨by decide +kernel, hlast.2 ?_⟩
  decide +kernel

/-! ## The chances of the next round -/

/-- A round without losses in which each unsettled server's draw falls where `f` says. -/
def roundOf (s : Network n) (order : Equiv.Perm (Fin n))
    (f : {i // i ∈ s.unsettled} → Fin s.identify.spare.length) : Round n :=
  { hears := fun _ => true
    draw := fun i => if hi : i ∈ s.unsettled then UInt32.ofNat (f ⟨i, hi⟩) else 0
    fate := fun _ => .intact
    order }

theorem picks_roundOf (s : Network n) (order : Equiv.Perm (Fin n))
    (f : {i // i ∈ s.unsettled} → Fin s.identify.spare.length) (i : {i // i ∈ s.unsettled}) :
    s.picks (s.roundOf order f) i = f i := by
  have hlt := (f i).isLt
  have hle : s.identify.spare.length ≤ 256 := s.identify.length_spare_le
  simp only [picks, roundOf, dif_pos i.2]
  rw [UInt32.toNat_ofNat', Nat.mod_eq_of_lt (show (f i : ℕ) < 2 ^ 32 by omega), Nat.mod_eq_of_lt hlt]

theorem alone_picks_roundOf (s : Network n) (order : Equiv.Perm (Fin n))
    (f : {i // i ∈ s.unsettled} → Fin s.identify.spare.length) :
    Occupancy.alone (s.picks (s.roundOf order f)) = Occupancy.alone f := by
  ext i
  simp only [Occupancy.mem_alone, picks_roundOf, Fin.val_inj]

theorem injective_picks_roundOf (s : Network n) (order : Equiv.Perm (Fin n))
    (f : {i // i ∈ s.unsettled} → Fin s.identify.spare.length) :
    Function.Injective (s.picks (s.roundOf order f)) ↔ Function.Injective f := by
  simp only [Function.Injective, picks_roundOf, Fin.val_inj]

theorem roundOf_reliable (s : Network n) (order : Equiv.Perm (Fin n))
    (f : {i // i ∈ s.unsettled} → Fin s.identify.spare.length) : (s.roundOf order f).Reliable :=
  ⟨fun _ => rfl, fun _ => rfl⟩

/-- **The chances of the next round.**  After any rounds without losses that leave the client unfinished, of all the ways
the draws of the `k` unsettled servers can fall on the `m` addresses not set: the share after which the client is still
not finished is `1 - (1 - 1/m) ⋯ (1 - (k-1)/m)`, and the number of servers that the round settles is
`k (1 - 1/m) ^ (k-1)` on average. -/
theorem next_round_chances {K : Type} [Field K] [CharZero K] (hn : n ≤ 255) (front : List (Round n))
    (hfront : ∀ r ∈ front, r.Reliable) (order : Equiv.Perm (Fin n)) (s : Network n)
    (hs : s = Mealy.run step (init n) front) (hbefore : s.finished = false) :
    ((Finset.univ.filter (fun f => (s.step (s.roundOf order f)).1.finished = false)).card : K)
        / (s.identify.spare.length : K) ^ s.unsettled.card
      = 1 - ∏ i ∈ Finset.range s.unsettled.card, (1 - (i : K) / s.identify.spare.length) ∧
    ((∑ f, (s.unsettled.card - (s.step (s.roundOf order f)).1.unsettled.card) : ℕ) : K)
        / (s.identify.spare.length : K) ^ s.unsettled.card
      = s.unsettled.card * (1 - 1 / (s.identify.spare.length : K)) ^ (s.unsettled.card - 1) := by
  have h : s.Agreed := hs ▸ agreed_run hn hfront
  have hspare := h.length_spare
  have hplayers : Fintype.card {i // i ∈ s.unsettled} = s.unsettled.card := Fintype.card_coe s.unsettled
  have hbins : Fintype.card (Fin s.identify.spare.length) = s.identify.spare.length := Fintype.card_fin _
  have hroom : 0 < Fintype.card {i // i ∈ s.unsettled} → 0 < Fintype.card (Fin s.identify.spare.length) := by
    rw [hplayers, hbins]
    omega
  constructor
  · have hshare := Occupancy.collision_share (K := K) hroom
    have hfinished : ∀ f, (s.step (s.roundOf order f)).1.finished = false ↔ ¬ Function.Injective f := by
      intro f
      rw [← injective_picks_roundOf s order f, ← h.finished_step_iff hn (s.roundOf_reliable order f) hbefore,
        Bool.not_eq_true]
    rw [hplayers, hbins] at hshare
    rw [← hshare]
    simp only [hfinished]
  · have hmean := Occupancy.alone_mean (K := K) hroom
    have hnew : ∀ f, s.unsettled.card - (s.step (s.roundOf order f)).1.unsettled.card = (Occupancy.alone f).card := by
      intro f
      have hcard := h.card_unsettled_step hn (s.roundOf_reliable order f) hbefore
      rw [alone_picks_roundOf] at hcard
      omega
    rw [hplayers, hbins] at hmean
    rw [← hmean]
    simp only [hnew]

/-- Two servers pick alike once in 255 times. -/
theorem next_round_chances_two_servers :
    ((Finset.univ.filter (fun f =>
        ((init 2).step ((init 2).roundOf (Equiv.refl _) f)).1.finished = false)).card : ℚ)
        / ((init 2).identify.spare.length : ℚ) ^ (init 2).unsettled.card = 1 / 255 ∧
    ((∑ f, ((init 2).unsettled.card - ((init 2).step ((init 2).roundOf (Equiv.refl _) f)).1.unsettled.card) : ℕ) : ℚ)
        / ((init 2).identify.spare.length : ℚ) ^ (init 2).unsettled.card = 508 / 255 := by
  obtain ⟨hcollision, hmean⟩ := next_round_chances (K := ℚ) (by decide) [] (fun _ hr => absurd hr List.not_mem_nil)
    (Equiv.refl _) (init 2) rfl rfl
  have hservers : (init 2).unsettled.card = 2 := by decide +kernel
  have haddresses : (init 2).identify.spare.length = 255 := by decide +kernel
  rw [hcollision, hmean, hservers, haddresses]
  norm_num [Finset.prod_range_succ]

end Network
end Discovery
end FlipFlop
