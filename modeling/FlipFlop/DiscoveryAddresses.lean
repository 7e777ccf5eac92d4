import FlipFlop.Discovery
import FlipFlop.Residue
/-!
# DiscoveryAddresses — the bit field as a set, and the pick from what is not in it

`Identify` stands for the set of the addresses its field has set: `set_address` adds to it, `is_address_set` asks it and
the iterator lists it, 256 items and then `None` for as long as it is asked (`iter_refines_set`).
`with_random_address` picks from the rest (`withRandomAddress_exact`), each of them by as many draws as any other, up to
one (`withRandomAddress_near_uniform`), and address 0 with them unless the client has set it (`picks_server_address_iff`).
-/
namespace FlipFlop
namespace Discovery

open Rust

/-! ## A set of addresses -/

/-- The addresses the field has set. -/
def Identify.addressSet (identify : Identify) : Set UInt8 := {a | identify.isAddressSet a = true}

theorem Identify.mem_addressSet {identify : Identify} {a : UInt8} :
    a ∈ identify.addressSet ↔ identify.isAddressSet a = true := Iff.rfl

/-- **`set_address` is insertion.** -/
theorem Identify.addressSet_setAddress (identify : Identify) (a : UInt8) :
    (identify.setAddress a).addressSet = insert a identify.addressSet := by
  ext b
  rw [Set.mem_insert_iff, mem_addressSet, mem_addressSet, isAddressSet_setAddress, Bool.or_eq_true, decide_eq_true_eq]

theorem Identify.addressSet_foldl_setAddress : ∀ (calls : List UInt8) (identify : Identify),
    (calls.foldl setAddress identify).addressSet = identify.addressSet ∪ {a | a ∈ calls}
  | [], identify => by simp
  | a :: calls, identify => by
    rw [List.foldl_cons, addressSet_foldl_setAddress calls, addressSet_setAddress]
    ext b
    simp only [Set.mem_union, Set.mem_insert_iff, Set.mem_ofPred_eq, List.mem_cons]
    tauto

/-- What `n` calls of `next` return. -/
def AddressesIter.pulls : Nat → AddressesIter → List (Option Bool)
  | 0, _ => []
  | n + 1, it => it.next.1 :: pulls n it.next.2

/-- Past the last address the iterator stays where it is. -/
theorem AddressesIter.pulls_atPos (identify : Identify) : ∀ (n p : Nat),
    (atPos identify.addresses (min p MAX_ADDRESSES)).pulls n
      = (List.range' p n).map (fun a => if a < MAX_ADDRESSES then some (identify.isAddressSet (UInt8.ofNat a)) else none)
  | 0, _ => rfl
  | n + 1, p => by
    have ih := pulls_atPos identify n (p + 1)
    rw [List.range'_succ, List.map_cons, ← ih]
    by_cases hp : p < MAX_ADDRESSES
    · have hnext : min (p + 1) MAX_ADDRESSES = p + 1 := Nat.min_eq_left hp
      rw [Nat.min_eq_left (Nat.le_of_lt hp), hnext, if_pos hp, pulls, next_atPos identify hp]
    · have hnext : min (p + 1) MAX_ADDRESSES = MAX_ADDRESSES := Nat.min_eq_right (by omega)
      rw [Nat.min_eq_right (Nat.le_of_not_lt hp), hnext, if_neg hp, pulls, next_atPos_end]

/-- **The bit field refines a set of addresses**: whatever calls of `set_address` follow one another, the field has set
what it had at first and what was passed, and nothing else; and the iterator over it yields the 256 answers of
`is_address_set` in order, then `None` at every further call. -/
theorem iter_refines_set (identify : Identify) (calls : List UInt8) :
    (∀ a, (calls.foldl Identify.setAddress identify).isAddressSet a = true ↔
      identify.isAddressSet a = true ∨ a ∈ calls) ∧
    ∀ n, (calls.foldl Identify.setAddress identify).iter.pulls n
      = (List.range n).map (fun i =>
          if i < 256 then some ((calls.foldl Identify.setAddress identify).isAddressSet (UInt8.ofNat i)) else none) := by
  constructor
  · intro a
    have hset := Identify.addressSet_foldl_setAddress calls identify
    rw [← Identify.mem_addressSet, hset]
    rfl
  · intro n
    rw [Identify.iter_eq, List.range_eq_range']
    exact AddressesIter.pulls_atPos _ n 0

/-! ## The pick -/

theorem Identify.spare_eq_nil_iff (identify : Identify) :
    identify.spare = [] ↔ ∀ a : UInt8, identify.isAddressSet a = true := by
  rw [List.eq_nil_iff_forall_not_mem]
  constructor
  · intro h a
    by_contra hfree
    apply h a.toNat
    rw [mem_spare, UInt8.ofNat_toNat]
    exact ⟨a.toNat_lt, by simpa using hfree⟩
  · intro h a ha
    have hfree := (mem_spare.1 ha).2
    rw [h] at hfree
    cases hfree

theorem Identify.toNat_mem_spare {identify : Identify} {a : UInt8} :
    a.toNat ∈ identify.spare ↔ identify.isAddressSet a = false := by
  rw [mem_spare, UInt8.ofNat_toNat]
  exact ⟨fun h => h.2, fun h => ⟨a.toNat_lt, h⟩⟩

/-- What the pick returns while there is an address left. -/
theorem withRandomAddress_of_spare {identify : Identify} (hk : identify.spare ≠ []) (nextU32 : UInt32)
    (serverPorts : UInt8) : ∃ a : UInt8, identify.spare[nextU32.toNat % identify.spare.length]? = some a.toNat ∧
      Identified.withRandomAddress identify.iter nextU32 serverPorts
        = .ok (some { serverAddress := a, serverPorts }) := by
  have hlt : nextU32.toNat % identify.spare.length < identify.spare.length :=
    Nat.mod_lt _ (List.length_pos_of_ne_nil hk)
  have hmem := Identify.mem_spare.1 (List.getElem_mem hlt)
  have hbyte : identify.spare[nextU32.toNat % identify.spare.length] < 2 ^ 8 := hmem.1
  have hget := List.getElem?_eq_getElem hlt
  refine ⟨UInt8.ofNat identify.spare[nextU32.toNat % identify.spare.length], ?_, ?_⟩
  · rw [hget, UInt8.toNat_ofNat', Nat.mod_eq_of_lt hbyte]
  · rw [withRandomAddress_eq, hget]
    rfl

theorem withRandomAddress_of_full {identify : Identify} (hk : identify.spare = []) (nextU32 : UInt32)
    (serverPorts : UInt8) : Identified.withRandomAddress identify.iter nextU32 serverPorts = .ok none := by
  rw [withRandomAddress_eq, hk]
  rfl

/-- **The random pick is exact and safe**: it panics at no field and no draw, finds nothing only when all 256 addresses
are set, and otherwise returns, with the ports given, the `r mod k`-th of the `k` addresses that are not set, in
increasing order; each of them is the pick of some draw. -/
theorem withRandomAddress_exact (identify : Identify) (nextU32 : UInt32) (serverPorts : UInt8) :
    (∃ result, Identified.withRandomAddress identify.iter nextU32 serverPorts = .ok result ∧
      (result = none ↔ ∀ a : UInt8, identify.isAddressSet a = true) ∧
      ∀ identified, result = some identified →
        identified.serverPorts = serverPorts ∧
        identify.spare[nextU32.toNat % identify.spare.length]? = some identified.serverAddress.toNat ∧
        identify.isAddressSet identified.serverAddress = false) ∧
    ∀ a, identify.isAddressSet a = false →
      ∃ r, Identified.withRandomAddress identify.iter r serverPorts
        = .ok (some { serverAddress := a, serverPorts }) := by
  constructor
  · rw [← identify.spare_eq_nil_iff]
    by_cases hk : identify.spare = []
    · refine ⟨none, withRandomAddress_of_full hk nextU32 serverPorts, by simp [hk], ?_⟩
      intro identified h
      cases h
    · obtain ⟨a, hget, hpick⟩ := withRandomAddress_of_spare hk nextU32 serverPorts
      refine ⟨_, hpick, by simp [hk], ?_⟩
      intro identified h
      cases h
      exact ⟨rfl, hget, Identify.toNat_mem_spare.1 (List.mem_of_getElem? hget)⟩
  · intro a ha
    obtain ⟨j, hj⟩ := List.getElem?_of_mem (Identify.toNat_mem_spare.2 ha)
    obtain ⟨hlt, -⟩ := List.getElem?_eq_some_iff.1 hj
    have hdraw : (UInt32.ofNat j).toNat % identify.spare.length = j := by
      have hle := identify.length_spare_le
      unfold MAX_ADDRESSES at hle
      rw [UInt32.toNat_ofNat', Nat.mod_eq_of_lt (show j < 2 ^ 32 by omega), Nat.mod_eq_of_lt hlt]
    refine ⟨UInt32.ofNat j, ?_⟩
    rw [withRandomAddress_eq, hdraw, hj, Option.map_some, UInt8.ofNat_toNat]

/-! ## How often an address is picked -/

theorem Identify.nodup_spare (identify : Identify) : identify.spare.Nodup := List.nodup_range.filter _

def Identify.unset (identify : Identify) : Set UInt8 := {a | identify.isAddressSet a = false}

/-- The draws for which an address is returned. -/
def draws (identify : Identify) (serverPorts a : UInt8) : Set UInt32 :=
  {r | ∃ identified, Identified.withRandomAddress identify.iter r serverPorts = .ok (some identified) ∧
    identified.serverAddress = a}

/-- `spare` lists the addresses not set, each of them once. -/
theorem Identify.ncard_unset (identify : Identify) : identify.unset.ncard = identify.spare.length := by
  have himage : UInt8.toNat '' identify.unset = identify.spare.toFinset := by
    ext n
    constructor
    · rintro ⟨b, hb, rfl⟩
      exact Finset.mem_coe.2 (List.mem_toFinset.2 (toNat_mem_spare.2 hb))
    · intro hn
      have hmem := mem_spare.1 (List.mem_toFinset.1 (Finset.mem_coe.1 hn))
      have hbyte : n < 2 ^ 8 := hmem.1
      exact ⟨UInt8.ofNat n, hmem.2, by rw [UInt8.toNat_ofNat', Nat.mod_eq_of_lt hbyte]⟩
  rw [← List.toFinset_card_of_nodup identify.nodup_spare, ← Set.ncard_coe_finset, ← himage,
    Set.ncard_image_of_injective _ (fun _ _ h => UInt8.toNat_inj.1 h)]

/-- An address is returned for the draws that leave its place among those not set. -/
theorem draws_eq {identify : Identify} {a : UInt8} {j : Nat} (hj : identify.spare[j]? = some a.toNat)
    (serverPorts : UInt8) : draws identify serverPorts a = {r | r.toNat % identify.spare.length = j} := by
  have hk : identify.spare ≠ [] := List.ne_nil_of_mem (List.mem_of_getElem? hj)
  ext r
  obtain ⟨b, hget, hpick⟩ := withRandomAddress_of_spare hk r serverPorts
  constructor
  · rintro ⟨identified, hok, rfl⟩
    rw [hpick] at hok
    cases hok
    obtain ⟨_, hb⟩ := List.getElem?_eq_some_iff.1 hget
    obtain ⟨_, ha⟩ := List.getElem?_eq_some_iff.1 hj
    exact identify.nodup_spare.getElem_inj_iff.1 (hb.trans ha.symm)
  · rintro rfl
    refine ⟨_, hpick, ?_⟩
    rw [hj, Option.some.injEq] at hget
    exact UInt8.toNat_inj.1 hget.symm

/-- **The pick is nearly uniform**: of the `2 ^ 32` draws, `2 ^ 32 / k` rounded down or up return a given one of the `k`
addresses that are not set. -/
theorem withRandomAddress_near_uniform (identify : Identify) (serverPorts a : UInt8)
    (ha : identify.isAddressSet a = false) :
    (draws identify serverPorts a).ncard = 2 ^ 32 / identify.unset.ncard ∨
    (draws identify serverPorts a).ncard = 2 ^ 32 ⌈/⌉ identify.unset.ncard := by
  obtain ⟨j, hj⟩ := List.getElem?_of_mem (Identify.toNat_mem_spare.2 ha)
  obtain ⟨hlt, -⟩ := List.getElem?_eq_some_iff.1 hj
  rw [identify.ncard_unset, draws_eq hj]
  exact Residue.ncard_mod hlt

/-- With all addresses to pick from, each is picked by `2 ^ 24` draws. -/
theorem withRandomAddress_near_uniform_all :
    (draws { addresses := Vector.replicate MIN_PAYLOAD_SIZE 0 } 0b00000010 7).ncard = 2 ^ 24 := by
  have hunset : (Identify.unset { addresses := Vector.replicate MIN_PAYLOAD_SIZE 0 }).ncard = 256 := by
    rw [Identify.ncard_unset]
    decide +kernel
  have hnear := withRandomAddress_near_uniform { addresses := Vector.replicate MIN_PAYLOAD_SIZE 0 } 0b00000010 7
    (by decide)
  rw [hunset, Nat.ceilDiv_eq_add_pred_div] at hnear
  norm_num at hnear ⊢
  exact hnear

/-! ## The reserved address -/

/-- The pick is an address a server may have, and there is none exactly when the client has set all of these. -/
def PicksServerAddress (identify : Identify) (nextU32 : UInt32) (serverPorts : UInt8) : Prop :=
  (∀ identified, Identified.withRandomAddress identify.iter nextU32 serverPorts = .ok (some identified) →
    1 ≤ identified.serverAddress.toNat ∧ identified.serverAddress.toNat ≤ 255) ∧
  (Identified.withRandomAddress identify.iter nextU32 serverPorts = .ok none ↔
    ∀ a : UInt8, 1 ≤ a.toNat → identify.isAddressSet a = true)

/-- Address 0, when it is not set, is the first of those not set. -/
theorem Identify.getElem?_spare_zero {identify : Identify} (h0 : identify.isAddressSet 0 = false) :
    identify.spare[0]? = some 0 := by
  have hrange : List.range MAX_ADDRESSES = 0 :: (List.range 255).map Nat.succ := List.range_succ_eq_map
  unfold Identify.spare
  rw [hrange, List.filter_cons_of_pos (by simpa using h0)]
  rfl

theorem Identify.getElem?_spare_eq_zero_iff {identify : Identify} {j a : Nat} (hj : identify.spare[j]? = some a) :
    a = 0 ↔ identify.isAddressSet 0 = false ∧ j = 0 := by
  constructor
  · rintro rfl
    have h0 := (mem_spare.1 (List.mem_of_getElem? hj)).2
    obtain ⟨_, hget⟩ := List.getElem?_eq_some_iff.1 hj
    obtain ⟨_, hzero⟩ := List.getElem?_eq_some_iff.1 (getElem?_spare_zero h0)
    exact ⟨h0, identify.nodup_spare.getElem_inj_iff.1 (hget.trans hzero.symm)⟩
  · rintro ⟨h0, rfl⟩
    rw [getElem?_spare_zero h0, Option.some.injEq] at hj
    exact hj.symm

/-- A pick that is not address 0 is all that is asked: it is itself an address that is not set. -/
theorem picksServerAddress_of_pick {identify : Identify} {nextU32 : UInt32} {serverPorts a : UInt8}
    (hpick : Identified.withRandomAddress identify.iter nextU32 serverPorts
      = .ok (some { serverAddress := a, serverPorts })) :
    PicksServerAddress identify nextU32 serverPorts ↔ a.toNat ≠ 0 := by
  have hfree := isAddressSet_of_withRandomAddress hpick
  unfold PicksServerAddress
  rw [hpick]
  constructor
  · rintro ⟨hrange, -⟩ hzero
    have hpos : 1 ≤ a.toNat := (hrange _ rfl).1
    omega
  · intro hne
    have hpos : 1 ≤ a.toNat := Nat.pos_of_ne_zero hne
    refine ⟨?_, fun h => (by cases h), fun h => ?_⟩
    · intro identified h
      cases h
      exact ⟨hpos, Nat.le_of_lt_succ a.toNat_lt⟩
    · rw [h a hpos] at hfree
      cases hfree

/-- **When a server claims no reserved address**: the client has set address 0, or the draw does not fall on the first
of the addresses not set. -/
theorem picks_server_address_iff (identify : Identify) (nextU32 : UInt32) (serverPorts : UInt8) :
    PicksServerAddress identify nextU32 serverPorts ↔
      identify.isAddressSet 0 = true ∨ nextU32.toNat % identify.spare.length ≠ 0 := by
  by_cases hk : identify.spare = []
  · have hall := identify.spare_eq_nil_iff.1 hk
    unfold PicksServerAddress
    rw [withRandomAddress_of_full hk]
    simp [hall]
  · obtain ⟨a, hget, hpick⟩ := withRandomAddress_of_spare hk nextU32 serverPorts
    rw [picksServerAddress_of_pick hpick, ne_eq, Identify.getElem?_spare_eq_zero_iff hget]
    cases identify.isAddressSet 0 <;> simp

/-- A client's first message, as the README has it, and the draw 0. -/
theorem picks_reserved_address :
    Identified.withRandomAddress (Identify.iter { addresses := Vector.replicate MIN_PAYLOAD_SIZE 0 }) 0 0b00000010
      = .ok (some { serverAddress := 0, serverPorts := 0b00000010 }) ∧
    ¬ PicksServerAddress { addresses := Vector.replicate MIN_PAYLOAD_SIZE 0 } 0 0b00000010 := by
  have hpick : Identified.withRandomAddress (Identify.iter { addresses := Vector.replicate MIN_PAYLOAD_SIZE 0 }) 0
      0b00000010 = .ok (some { serverAddress := 0, serverPorts := 0b00000010 }) := by decide +kernel
  refine ⟨hpick, fun h => ?_⟩
  have := (h.1 _ hpick).1
  exact absurd this (by decide)

end Discovery
end FlipFlop
