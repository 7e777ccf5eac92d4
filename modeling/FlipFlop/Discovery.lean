import FlipFlop.ByteBits
import FlipFlop.Serde
import FlipFlop.Datagram
/-!
# Discovery — the addresses a client knows, and how a server picks one (`data/src/discovery.rs`)

`Identify` is a bit field over the 256 addresses, read by three pieces of code that count positions in different ways:
`is_address_set`, `set_address` and the iterator.  They agree (`isAddressSet_setAddress`, `collect_iter`), and
`with_random_address` picks among the addresses that are not set (`withRandomAddress_eq`).
-/
namespace FlipFlop
namespace Discovery

open Rust Postcard

def ADDRESSES_PER_BYTE : Nat := 8

/-- The maximum number of address we can have on one network. Address 0 always represents the client. -/
def MAX_ADDRESSES : Nat := 256

def MIN_PAYLOAD_SIZE : Nat := MAX_ADDRESSES / ADDRESSES_PER_BYTE

def MIN_PACKET_SIZE : Nat := HEADER_SIZE + MIN_PAYLOAD_SIZE + MIC_SIZE

structure Identify where
  addresses : Vector UInt8 MIN_PAYLOAD_SIZE
  deriving Repr, DecidableEq

structure Identified where
  serverAddress : UInt8
  serverPorts : UInt8
  deriving Repr, DecidableEq

instance : Serde Identify := Serde.via Identify.addresses Identify.mk

instance : LawfulSerde Identify := LawfulSerde.via _ _ (fun _ => rfl)

instance : Serde Identified :=
  Serde.via (fun i => (i.serverAddress, i.serverPorts)) (fun (serverAddress, serverPorts) => ⟨serverAddress, serverPorts⟩)

instance : LawfulSerde Identified := LawfulSerde.via _ _ (fun _ => rfl)

theorem length_ser_identify (identify : Identify) : (ser identify).length = MIN_PAYLOAD_SIZE := Vector.length_toList

theorem length_ser_identified (identified : Identified) : (ser identified).length = 2 := rfl

/-- `address as usize / ADDRESSES_PER_BYTE`, which is in bounds for every `u8`. -/
def byteOf (address : UInt8) : Fin MIN_PAYLOAD_SIZE :=
  ⟨address.toNat / ADDRESSES_PER_BYTE, by
    have := address.toNat_lt
    unfold MIN_PAYLOAD_SIZE MAX_ADDRESSES ADDRESSES_PER_BYTE
    omega⟩

namespace Identify

-- the `assert!`s that an address is below `MAX_ADDRESSES` hold of every `u8`
def isAddressSet (identify : Identify) (address : UInt8) : Bool :=
  identify.addresses[byteOf address] &&& (1 <<< (address % UInt8.ofNat ADDRESSES_PER_BYTE)) != 0

def setAddress (identify : Identify) (address : UInt8) : Identify :=
  { addresses := identify.addresses.set (byteOf address)
      (identify.addresses[byteOf address] ||| (1 <<< (address % UInt8.ofNat ADDRESSES_PER_BYTE)))
      (byteOf address).isLt }

end Identify

structure AddressesIter where
  i : Nat
  j : UInt8
  addresses : Vector UInt8 MIN_PAYLOAD_SIZE

namespace AddressesIter

def next (it : AddressesIter) : Option Bool × AddressesIter :=
  if h : it.i < MIN_PAYLOAD_SIZE then
    let item := it.addresses[it.i] &&& it.j != 0
    let j := it.j <<< 1
    if j = 0 then (some item, { it with i := it.i + 1, j := 1 })
    else (some item, { it with j })
  else (none, it)

/-- The items a loop over the iterator sees. -/
def collect : Nat → AddressesIter → Except Panic (List Bool)
  | 0, _ => .error .fuel
  | fuel + 1, it =>
    match it.next with
    | (none, _) => .ok []
    | (some item, it) => do
      let items ← collect fuel it
      return item :: items

/-- Enough for every address and for the end. -/
def fuel : Nat := MAX_ADDRESSES + 1

end AddressesIter

def Identify.iter (identify : Identify) : AddressesIter := { i := 0, j := 1, addresses := identify.addresses }

/-- The body of the loop that gathers the spare addresses. -/
def noteSpare (st : Vector Nat MAX_ADDRESSES × Nat) (item : Bool × Nat) :
    Except Panic (Vector Nat MAX_ADDRESSES × Nat) :=
  let (spareAddresses, j) := st
  let (taken, i) := item
  if !taken then
    if h : j < MAX_ADDRESSES then .ok (spareAddresses.set j i h, j + 1) else .error .index
  else .ok (spareAddresses, j)

/-- `a % b` on `u32`. -/
def remU32 (a b : UInt32) : Except Panic UInt32 := if b = 0 then .error .arith else .ok (a % b)

/-- `nextU32` is what `rng.next_u32()` returns. -/
def Identified.withRandomAddress (iter : AddressesIter) (nextU32 : UInt32) (serverPorts : UInt8) :
    Except Panic (Option Identified) := do
  let items ← iter.collect AddressesIter.fuel
  let (spareAddresses, j) ← items.zipIdx.foldlM noteSpare (Vector.replicate MAX_ADDRESSES 0, 0)
  if j > 0 then
    let j ← remU32 nextU32 (UInt32.ofNat j)
    if h : j.toNat < MAX_ADDRESSES then
      return some { serverAddress := UInt8.ofNat spareAddresses[j.toNat], serverPorts }
    else .error .index
  else return none

/-! ## The bit field -/

theorem toNat_rem (a : UInt8) : (a % UInt8.ofNat ADDRESSES_PER_BYTE).toNat = a.toNat % 8 := by
  rw [UInt8.toNat_mod]
  rfl

theorem toNat_rem_lt (a : UInt8) : (a % UInt8.ofNat ADDRESSES_PER_BYTE).toNat < 8 := by
  rw [toNat_rem]
  omega

theorem eq_iff_byteOf_rem (a b : UInt8) : b = a ↔ byteOf a = byteOf b ∧
    b % UInt8.ofNat ADDRESSES_PER_BYTE = a % UInt8.ofNat ADDRESSES_PER_BYTE := by
  rw [← UInt8.toNat_inj, ← UInt8.toNat_inj, toNat_rem, toNat_rem, Fin.ext_iff]
  show _ ↔ a.toNat / 8 = b.toNat / 8 ∧ _
  omega

theorem getElem_set_fin {n : Nat} (v : Vector UInt8 n) (i j : Fin n) (x : UInt8) :
    (v.set i x i.isLt)[j] = if i = j then x else v[j] := by
  simp [Vector.getElem_set, Fin.ext_iff]

/-- **Setting an address sets it and no other.** -/
theorem isAddressSet_setAddress (identify : Identify) (a b : UInt8) :
    (identify.setAddress a).isAddressSet b = (decide (b = a) || identify.isAddressSet b) := by
  unfold Identify.isAddressSet Identify.setAddress
  simp only [getElem_set_fin]
  split
  · rename_i hbyte
    have hor := ByteBits.or_mask_and_mask identify.addresses[byteOf a] (toNat_rem_lt a) (toNat_rem_lt b)
    unfold ByteBits.mask at hor
    have hget : identify.addresses[byteOf b] = identify.addresses[byteOf a] := by simp only [hbyte]
    rw [hor, hget]
    congr 2
    rw [eq_iff_byteOf_rem a b]
    exact propext ⟨fun h => ⟨hbyte, h⟩, fun h => h.2⟩
  · rename_i hbyte
    have hab : ¬ b = a := fun h => hbyte ((eq_iff_byteOf_rem a b).1 h).1
    rw [decide_eq_false hab, Bool.false_or]

/-! ## The iterator -/

/-- The iterator once it has passed `p` addresses. -/
def AddressesIter.atPos (addresses : Vector UInt8 MIN_PAYLOAD_SIZE) (p : Nat) : AddressesIter :=
  { i := p / 8, j := ByteBits.mask (UInt8.ofNat (p % 8)), addresses }

theorem toNat_ofNat_rem (p : Nat) : (UInt8.ofNat (p % 8)).toNat = p % 8 := by
  rw [UInt8.toNat_ofNat']
  omega

theorem Identify.iter_eq (identify : Identify) : identify.iter = AddressesIter.atPos identify.addresses 0 := rfl

theorem Identify.isAddressSet_ofNat (identify : Identify) {p : Nat} (hp : p < MAX_ADDRESSES)
    (h : p / 8 < MIN_PAYLOAD_SIZE) :
    (identify.addresses[p / 8] &&& ByteBits.mask (UInt8.ofNat (p % 8)) != 0)
      = identify.isAddressSet (UInt8.ofNat p) := by
  have hp8 : (UInt8.ofNat p).toNat = p := by
    rw [UInt8.toNat_ofNat']
    exact Nat.mod_eq_of_lt hp
  have hrem : UInt8.ofNat p % UInt8.ofNat ADDRESSES_PER_BYTE = UInt8.ofNat (p % 8) := by
    rw [← UInt8.toNat_inj, toNat_rem, toNat_ofNat_rem, hp8]
  have hbyte : byteOf (UInt8.ofNat p) = ⟨p / 8, h⟩ := by
    rw [Fin.ext_iff]
    show (UInt8.ofNat p).toNat / 8 = p / 8
    rw [hp8]
  unfold Identify.isAddressSet
  simp only [hrem, hbyte]
  rfl

theorem AddressesIter.next_atPos (identify : Identify) {p : Nat} (hp : p < MAX_ADDRESSES) :
    (atPos identify.addresses p).next
      = (some (identify.isAddressSet (UInt8.ofNat p)), atPos identify.addresses (p + 1)) := by
  have hi : p / 8 < MIN_PAYLOAD_SIZE := by
    unfold MAX_ADDRESSES at hp
    unfold MIN_PAYLOAD_SIZE MAX_ADDRESSES ADDRESSES_PER_BYTE
    omega
  have hbit := identify.isAddressSet_ofNat hp hi
  simp only [next, atPos, hi, dif_pos, hbit]
  by_cases hlast : p % 8 = 7
  · -- the mask is shifted out, and the iterator moves to the next byte
    have hnext : (p + 1) / 8 = p / 8 + 1 ∧ (p + 1) % 8 = 0 := by omega
    rw [hlast, hnext.1, hnext.2]
    rfl
  · have hnext : (p + 1) / 8 = p / 8 ∧ (p + 1) % 8 = p % 8 + 1 := by omega
    have hk := toNat_ofNat_rem p
    have hshift : ByteBits.mask (UInt8.ofNat (p % 8)) <<< 1 = ByteBits.mask (UInt8.ofNat (p % 8 + 1)) := by
      rw [ByteBits.mask_shiftLeft_one (by omega), UInt8.ofNat_add]
      rfl
    have hne : ByteBits.mask (UInt8.ofNat (p % 8 + 1)) ≠ 0 := by
      apply ByteBits.mask_ne_zero
      rw [UInt8.toNat_ofNat']
      omega
    rw [hshift, if_neg hne, hnext.1, hnext.2]

theorem AddressesIter.next_atPos_end (addresses : Vector UInt8 MIN_PAYLOAD_SIZE) :
    (atPos addresses MAX_ADDRESSES).next = (none, atPos addresses MAX_ADDRESSES) := rfl

theorem AddressesIter.collect_atPos (identify : Identify) : ∀ (n p fuel : Nat), p + n = MAX_ADDRESSES → n < fuel →
    (atPos identify.addresses p).collect fuel
      = .ok ((List.range' p n).map (fun a => identify.isAddressSet (UInt8.ofNat a)))
  | _, _, 0, _, hf => absurd hf (Nat.not_lt_zero _)
  | 0, p, fuel + 1, hp, _ => by
    obtain rfl : p = MAX_ADDRESSES := hp
    rw [collect, next_atPos_end]
    rfl
  | n + 1, p, fuel + 1, hp, hf => by
    rw [collect, next_atPos identify (by omega)]
    simp only
    rw [collect_atPos identify n (p + 1) fuel (by omega) (by omega), List.range'_succ, List.map_cons]
    rfl

/-- **A loop over the iterator sees each address once, in order**, as `is_address_set` has it. -/
theorem collect_iter (identify : Identify) : identify.iter.collect AddressesIter.fuel
    = .ok ((List.range MAX_ADDRESSES).map (fun a => identify.isAddressSet (UInt8.ofNat a))) := by
  have hall := AddressesIter.collect_atPos identify MAX_ADDRESSES 0 AddressesIter.fuel rfl (Nat.lt_succ_self _)
  rw [identify.iter_eq, hall, List.range_eq_range']

/-! ## The pick -/

/-- The addresses that are not set, in increasing order. -/
def Identify.spare (identify : Identify) : List Nat :=
  (List.range MAX_ADDRESSES).filter (fun a => !identify.isAddressSet (UInt8.ofNat a))

theorem Identify.mem_spare {identify : Identify} {a : Nat} :
    a ∈ identify.spare ↔ a < MAX_ADDRESSES ∧ identify.isAddressSet (UInt8.ofNat a) = false := by
  simp [Identify.spare]

theorem Identify.length_spare_le (identify : Identify) : identify.spare.length ≤ MAX_ADDRESSES := by
  have h := List.length_filter_le (fun a => !identify.isAddressSet (UInt8.ofNat a)) (List.range MAX_ADDRESSES)
  rwa [List.length_range] at h

theorem take_set_concat {α : Type} (l : List α) (j : Nat) (x : α) (h : j < l.length) :
    (l.set j x).take (j + 1) = l.take j ++ [x] := by
  rw [List.take_add_one, List.take_set_of_le (Nat.le_refl j), List.getElem?_set_self h]
  rfl

/-- **The loop gathers the addresses not taken at the front of the array**, and never writes past its end. -/
theorem foldlM_noteSpare (p : Nat → Bool) : ∀ (l : List Nat) (spareAddresses : Vector Nat MAX_ADDRESSES) (j : Nat),
    j + (l.filter (fun a => !p a)).length ≤ MAX_ADDRESSES →
    ∃ out : Vector Nat MAX_ADDRESSES,
      (l.map (fun a => (p a, a))).foldlM noteSpare (spareAddresses, j)
        = .ok (out, j + (l.filter (fun a => !p a)).length) ∧
      out.toList.take (j + (l.filter (fun a => !p a)).length)
        = spareAddresses.toList.take j ++ l.filter (fun a => !p a)
  | [], spareAddresses, j, _ => ⟨spareAddresses, rfl, by simp⟩
  | a :: l, spareAddresses, j, hj => by
    cases ha : p a with
    | true =>
      have hf : (a :: l).filter (fun a => !p a) = l.filter (fun a => !p a) := by simp [ha]
      rw [hf] at hj ⊢
      obtain ⟨out, hrun, hout⟩ := foldlM_noteSpare p l spareAddresses j hj
      refine ⟨out, ?_, hout⟩
      rw [List.map_cons, List.foldlM_cons, ha]
      exact hrun
    | false =>
      have hf : (a :: l).filter (fun a => !p a) = a :: l.filter (fun a => !p a) := by simp [ha]
      rw [hf, List.length_cons] at hj ⊢
      have hlt : j < MAX_ADDRESSES := by omega
      obtain ⟨out, hrun, hout⟩ := foldlM_noteSpare p l (spareAddresses.set j a hlt) (j + 1) (by omega)
      have hlen : j + ((l.filter (fun a => !p a)).length + 1) = j + 1 + (l.filter (fun a => !p a)).length := by omega
      rw [hlen]
      refine ⟨out, ?_, ?_⟩
      · rw [List.map_cons, List.foldlM_cons, ha]
        simp only [noteSpare, Bool.not_false, if_true, hlt, dif_pos]
        exact hrun
      · rw [hout, Vector.toList_set, take_set_concat _ _ _ (by simpa using hlt), List.append_assoc]
        rfl

theorem zipIdx_map_range (p : Nat → Bool) (n : Nat) :
    ((List.range n).map p).zipIdx = (List.range n).map (fun a => (p a, a)) := by
  apply List.ext_getElem
  · simp
  · intro i h1 h2
    simp

theorem remU32_ofNat (n : UInt32) {k : Nat} (hk : 0 < k) (hlt : k < 2 ^ 32) :
    ∃ j, remU32 n (UInt32.ofNat k) = .ok j ∧ j.toNat = n.toNat % k := by
  have hlen : (UInt32.ofNat k).toNat = k := by rw [UInt32.toNat_ofNat', Nat.mod_eq_of_lt hlt]
  refine ⟨n % UInt32.ofNat k, if_neg (fun hzero => ?_), by rw [UInt32.toNat_mod, hlen]⟩
  rw [hzero, UInt32.toNat_zero] at hlen
  omega

/-- The array that the loop fills begins with the addresses that are not set, and the pick is taken from it. -/
theorem withRandomAddress_steps (identify : Identify) (nextU32 : UInt32) (serverPorts : UInt8) :
    ∃ out : Vector Nat MAX_ADDRESSES, out.toList.take identify.spare.length = identify.spare ∧
      Identified.withRandomAddress identify.iter nextU32 serverPorts
        = (if identify.spare.length > 0 then
            (remU32 nextU32 (UInt32.ofNat identify.spare.length)).bind (fun j =>
              if h : j.toNat < MAX_ADDRESSES then
                .ok (some { serverAddress := UInt8.ofNat out[j.toNat], serverPorts })
              else .error .index)
          else .ok none) := by
  obtain ⟨out, hrun, hout⟩ := foldlM_noteSpare (fun a => identify.isAddressSet (UInt8.ofNat a))
    (List.range MAX_ADDRESSES) (Vector.replicate MAX_ADDRESSES 0) 0 (by
      rw [Nat.zero_add]
      exact identify.length_spare_le)
  rw [Nat.zero_add] at hrun hout
  refine ⟨out, hout, ?_⟩
  unfold Identified.withRandomAddress
  rw [collect_iter]
  simp only [bind, Except.bind]
  rw [zipIdx_map_range, hrun]
  rfl

/-- **The pick is the `nextU32 mod k`-th of the `k` addresses that are not set**, and there is none only when all are
set. -/
theorem withRandomAddress_eq (identify : Identify) (nextU32 : UInt32) (serverPorts : UInt8) :
    Identified.withRandomAddress identify.iter nextU32 serverPorts
      = .ok (identify.spare[nextU32.toNat % identify.spare.length]?.map
          (fun a => { serverAddress := UInt8.ofNat a, serverPorts })) := by
  obtain ⟨out, hout, hsteps⟩ := withRandomAddress_steps identify nextU32 serverPorts
  have hle : identify.spare.length ≤ 256 := identify.length_spare_le
  rw [hsteps]
  by_cases hk : identify.spare.length > 0
  · obtain ⟨j, hrem, hj⟩ := remU32_ofNat nextU32 hk (by omega)
    have hlt : j.toNat < identify.spare.length := hj ▸ Nat.mod_lt _ hk
    have hget : identify.spare[j.toNat]? = out.toList[j.toNat]? := by
      rw [← hout, List.getElem?_take_of_lt hlt]
    have hmax : j.toNat < MAX_ADDRESSES := Nat.lt_of_lt_of_le hlt hle
    rw [if_pos hk, hrem, Except.bind, dif_pos hmax, ← hj, hget, List.getElem?_eq_getElem (by simpa using hmax)]
    rfl
  · have hnil : identify.spare = [] := List.eq_nil_of_length_eq_zero (by omega)
    rw [if_neg hk, hnil]
    rfl

/-- The pick is not set. -/
theorem isAddressSet_of_withRandomAddress {identify : Identify} {nextU32 : UInt32} {serverPorts : UInt8}
    {identified : Identified}
    (h : Identified.withRandomAddress identify.iter nextU32 serverPorts = .ok (some identified)) :
    identify.isAddressSet identified.serverAddress = false := by
  rw [withRandomAddress_eq] at h
  obtain ⟨a, ha, rfl⟩ := Option.map_eq_some_iff.1 (Except.ok.inj h)
  exact (Identify.mem_spare.1 (List.mem_of_getElem? ha)).2

end Discovery
end FlipFlop
