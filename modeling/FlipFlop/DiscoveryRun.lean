import FlipFlop.Discovery
import FlipFlop.Mealy
/-!
# DiscoveryRun — rounds of discovery (`data/examples/discovery/main.rs`)

One round is one turn of `main`'s loop: the client broadcasts the addresses it knows, each server that hears it and
holds none of them picks one and replies, and at the end of its time window the client sets the addresses that exactly
one intact reply reported.  Which servers hear, what they draw, the fate of each reply and the order of arrival are the
round's input.  `unique_iff` says when two servers end up with one address the client has set.
-/
namespace FlipFlop
namespace Discovery

open Rust

/-! ## The server -/

/-- `server::task` on what `process_client_request` made of the packet received: the address kept, and the reply. -/
def Server.task (request : Option Identify) (serverAddress : Option UInt8) (nextU32 : UInt32) :
    Except Panic (Option UInt8 × Option Identified) :=
  match request with
  | some identify =>
    if (serverAddress.map (fun sa => !identify.isAddressSet sa)).getD true then do
      match ← Identified.withRandomAddress identify.iter nextU32 0b00000010 with
      | some identified => return (some identified.serverAddress, some identified)
      | none => return (serverAddress, none)
    else .ok (serverAddress, none)
  | none => .ok (serverAddress, none)

/-- **A server answers only with an address the client has not set, and only while it holds none the client has set**;
else it keeps what it holds. -/
theorem Server.task_cases (request : Option Identify) (serverAddress : Option UInt8) (nextU32 : UInt32) :
    task request serverAddress nextU32 = .ok (serverAddress, none) ∨
    ∃ identify identified, request = some identify ∧ (∀ a, serverAddress = some a → identify.isAddressSet a = false) ∧
      identify.isAddressSet identified.serverAddress = false ∧
      task request serverAddress nextU32 = .ok (some identified.serverAddress, some identified) := by
  cases request with
  | none => exact .inl rfl
  | some identify =>
    unfold task
    cases hfree : (serverAddress.map (fun sa => !identify.isAddressSet sa)).getD true with
    | false => exact .inl (by simp [hfree])
    | true =>
      have hnone : ∀ a, serverAddress = some a → identify.isAddressSet a = false := by
        rintro a rfl
        simpa using hfree
      cases hpick : identify.spare[nextU32.toNat % identify.spare.length]?.map
          (fun a => ({ serverAddress := UInt8.ofNat a, serverPorts := 0b00000010 } : Identified)) with
      | none =>
        left
        simp only [hfree, if_true, withRandomAddress_eq, hpick]
        rfl
      | some identified =>
        have hok := withRandomAddress_eq identify nextU32 0b00000010
        rw [hpick] at hok
        right
        refine ⟨identify, identified, rfl, hnone, isAddressSet_of_withRandomAddress hok, ?_⟩
        simp only [hfree, if_true, hok]
        rfl

/-! ## The client -/

def addressIx (address : UInt8) : Fin MAX_ADDRESSES := ⟨address.toNat, address.toNat_lt⟩

/-- What `client::task` does with a packet: `none` is one that `process_server_reply` could make nothing of. -/
def Client.note (st : Vector Nat MAX_ADDRESSES × Bool) : Option Identified → Vector Nat MAX_ADDRESSES × Bool
  | some identified =>
    (st.1.set (addressIx identified.serverAddress) (st.1[addressIx identified.serverAddress] + 1)
      (addressIx identified.serverAddress).isLt, st.2)
  | none => (st.1, false)

/-- What it does with the count of an address once the time window is over. -/
def Client.settle (st : Identify × Bool) (item : Nat × Nat) : Identify × Bool :=
  let (count, address) := item
  if count = 1 then (st.1.setAddress (UInt8.ofNat address), st.2)
  else if count > 1 then (st.1, false)
  else st

def Client.task (identify : Identify) (received : List (Option Identified)) : Identify × Bool :=
  let (addresses, finished) := received.foldl note (Vector.replicate MAX_ADDRESSES 0, true)
  addresses.toList.zipIdx.foldl settle (identify, finished)

/-- The addresses the intact replies report. -/
def reported (received : List (Option Identified)) : List UInt8 := received.filterMap (Option.map Identified.serverAddress)

theorem Client.count_note : ∀ (received : List (Option Identified)) (st : Vector Nat MAX_ADDRESSES × Bool) (a : UInt8),
    (received.foldl note st).1[addressIx a] = st.1[addressIx a] + (reported received).count a
  | [], _, _ => rfl
  | none :: received, st, a => by
    rw [List.foldl_cons, count_note received]
    rfl
  | some identified :: received, st, a => by
    rw [List.foldl_cons, count_note received]
    have hcons : reported (some identified :: received) = identified.serverAddress :: reported received := rfl
    rw [hcons, List.count_cons]
    by_cases ha : identified.serverAddress = a
    · subst ha
      simp [note]
      omega
    · have hne : (addressIx identified.serverAddress : Nat) ≠ addressIx a := fun h => ha (UInt8.toNat_inj.1 h)
      have hget : (note st (some identified)).1[addressIx a] = st.1[addressIx a] :=
        Vector.getElem_set_ne (addressIx identified.serverAddress).isLt _ hne
      rw [hget]
      simp [ha]

theorem Client.isAddressSet_settle (counts : Nat → Nat) (b : UInt8) : ∀ (l : List Nat) (st : Identify × Bool),
    (∀ a ∈ l, a < MAX_ADDRESSES) →
    ((l.map (fun a => (counts a, a))).foldl settle st).1.isAddressSet b
      = (st.1.isAddressSet b || decide (b.toNat ∈ l ∧ counts b.toNat = 1))
  | [], st, _ => by simp
  | a :: l, st, hl => by
    have ha : a < MAX_ADDRESSES := hl a List.mem_cons_self
    have hmem : b = UInt8.ofNat a ↔ b.toNat = a := by
      rw [← UInt8.toNat_inj, UInt8.toNat_ofNat']
      unfold MAX_ADDRESSES at ha
      omega
    rw [List.map_cons, List.foldl_cons, isAddressSet_settle counts b l _ (fun x hx => hl x (List.mem_cons_of_mem a hx))]
    by_cases hone : counts a = 1
    · simp only [settle, hone, if_true, isAddressSet_setAddress, hmem, List.mem_cons]
      by_cases hba : b.toNat = a
      · simp [hba, hone]
      · simp [hba]
    · have hkeep : (settle st (counts a, a)).1 = st.1 := by
        simp only [settle, if_neg hone]
        split <;> rfl
      rw [hkeep]
      by_cases hba : b.toNat = a
      · simp [hba, hone]
      · simp [hba]

/-- What the client settles at the end of its window: how many intact replies reported each address. -/
theorem Client.task_eq (identify : Identify) (received : List (Option Identified)) :
    task identify received
      = ((List.range MAX_ADDRESSES).map (fun a => ((reported received).count (UInt8.ofNat a), a))).foldl settle
          (identify, (received.foldl note (Vector.replicate MAX_ADDRESSES 0, true)).2) := by
  have hcount := count_note received (Vector.replicate MAX_ADDRESSES 0, true)
  unfold task
  generalize received.foldl note (Vector.replicate MAX_ADDRESSES 0, true) = st at hcount
  obtain ⟨addresses, finished⟩ := st
  have hlist : addresses.toList.zipIdx
      = (List.range MAX_ADDRESSES).map (fun a => ((reported received).count (UInt8.ofNat a), a)) := by
    apply List.ext_getElem
    · simp
    · intro a h1 h2
      have ha : a < MAX_ADDRESSES := by simpa using h1
      have hix : (addressIx (UInt8.ofNat a) : Nat) = a := by
        show (UInt8.ofNat a).toNat = a
        rw [UInt8.toNat_ofNat']
        exact Nat.mod_eq_of_lt ha
      have h := hcount (UInt8.ofNat a)
      simp only [Fin.getElem_fin, hix, Vector.getElem_replicate, Nat.zero_add] at h
      simp [h]
  simp only
  rw [hlist]

/-- **The client sets the addresses that exactly one intact reply reported**, whatever the order of the replies. -/
theorem Client.isAddressSet_task (identify : Identify) (received : List (Option Identified)) (b : UInt8) :
    (task identify received).1.isAddressSet b
      = (identify.isAddressSet b || decide ((reported received).count b = 1)) := by
  have hmem : b.toNat ∈ List.range MAX_ADDRESSES := List.mem_range.2 (addressIx b).isLt
  rw [task_eq, isAddressSet_settle (fun a => (reported received).count (UInt8.ofNat a)) b _ _
    (fun a ha => List.mem_range.1 ha)]
  simp [hmem]

/-! ## Rounds -/

inductive Fate
  | intact
  | garbled
  | lost
  deriving Repr, DecidableEq

/-- What reaches the client of a reply. -/
def Fate.deliver : Fate → Identified → Option (Option Identified)
  | .intact, identified => some (some identified)
  | .garbled, _ => some none
  | .lost, _ => none

structure Network (n : Nat) where
  identify : Identify
  servers : Fin n → Option UInt8
  finished : Bool

structure Round (n : Nat) where
  hears : Fin n → Bool
  draw : Fin n → UInt32
  fate : Fin n → Fate
  order : Equiv.Perm (Fin n)

variable {n : Nat}

namespace Network

/-- Address 0 is the client and is therefore reserved. -/
def init (n : Nat) : Network n :=
  { identify := ({ addresses := Vector.replicate MIN_PAYLOAD_SIZE 0 } : Identify).setAddress 0
    servers := fun _ => none
    finished := false }

-- a task that panicked would send nothing; `Server.task_cases` says that none does
def serverTask (s : Network n) (r : Round n) (i : Fin n) : Option UInt8 × Option Identified :=
  match Server.task (if r.hears i then some s.identify else none) (s.servers i) (r.draw i) with
  | .ok result => result
  | .error _ => (s.servers i, none)

def received (s : Network n) (r : Round n) : List (Option Identified) :=
  ((List.finRange n).map r.order).filterMap (fun i => (s.serverTask r i).2.bind (r.fate i).deliver)

/-- One turn of `main`'s loop, which ends once `client::task` has returned `true`. -/
def step (s : Network n) (r : Round n) : Network n × Bool :=
  if s.finished then (s, true)
  else
    let (identify, finished) := Client.task s.identify (s.received r)
    ({ identify, servers := fun i => (s.serverTask r i).1, finished }, finished)

/-- No two servers hold one address that the client has set. -/
def Unique (s : Network n) : Prop :=
  ∀ i j a, s.servers i = some a → s.servers j = some a → s.identify.isAddressSet a = true → i = j

/-- An address that exactly one intact reply of the round reports is held, once the servers have picked, by one server
only. -/
def SoleHolder (s : Network n) (r : Round n) : Prop :=
  ∀ a, (reported (s.received r)).count a = 1 →
    ∀ i j, (s.serverTask r i).1 = some a → (s.serverTask r j).1 = some a → i = j

/-- What a server holds after a round it held before, or it has picked it among the addresses not set while it held
none that was. -/
theorem serverTask_cases (s : Network n) (r : Round n) (i : Fin n) :
    (s.serverTask r i).1 = s.servers i ∨
    ∃ a, (s.serverTask r i).1 = some a ∧ s.identify.isAddressSet a = false ∧
      ∀ b, s.servers i = some b → s.identify.isAddressSet b = false := by
  unfold serverTask
  rcases Server.task_cases (if r.hears i then some s.identify else none) (s.servers i) (r.draw i) with
    h | ⟨identify, identified, hreq, hold, hnew, h⟩
  · rw [h]
    exact .inl rfl
  · rw [h]
    have hid : s.identify = identify := by
      split at hreq
      · exact Option.some.inj hreq
      · cases hreq
    rw [hid]
    exact .inr ⟨_, rfl, hnew, hold⟩

theorem serverTask_of_set {s : Network n} (r : Round n) {i : Fin n} {a : UInt8} (hi : s.servers i = some a)
    (ha : s.identify.isAddressSet a = true) : (s.serverTask r i).1 = some a := by
  rcases s.serverTask_cases r i with h | ⟨_, _, _, hold⟩
  · rw [h, hi]
  · rw [hold a hi] at ha
    cases ha

theorem servers_of_serverTask {s : Network n} {r : Round n} {i : Fin n} {a : UInt8}
    (hi : (s.serverTask r i).1 = some a) (ha : s.identify.isAddressSet a = true) : s.servers i = some a := by
  rcases s.serverTask_cases r i with h | ⟨b, hb, hnew, _⟩
  · rw [← h, hi]
  · rw [hi, Option.some.injEq] at hb
    rw [hb, hnew] at ha
    cases ha

theorem step_of_not_finished {s : Network n} (h : s.finished = false) (r : Round n) :
    (s.step r).1 = { identify := (Client.task s.identify (s.received r)).1
                     servers := fun i => (s.serverTask r i).1
                     finished := (Client.task s.identify (s.received r)).2 } := by
  simp [step, h]

/-- **A round keeps the addresses unique exactly when each address it sets has a sole holder.** -/
theorem unique_step (s : Network n) (r : Round n) :
    (s.step r).1.Unique ↔ s.Unique ∧ (s.finished = false → s.SoleHolder r) := by
  cases hf : s.finished with
  | true => simp [step, hf]
  | false =>
    rw [step_of_not_finished hf]
    constructor
    · intro h
      constructor
      · intro i j a hi hj ha
        refine h i j a (serverTask_of_set r hi ha) (serverTask_of_set r hj ha) ?_
        rw [Client.isAddressSet_task, ha, Bool.true_or]
      · intro _ a hone i j hi hj
        refine h i j a hi hj ?_
        rw [Client.isAddressSet_task, decide_eq_true hone, Bool.or_true]
    · rintro ⟨hs, hsole⟩ i j a hi hj ha
      simp only [Client.isAddressSet_task, Bool.or_eq_true, decide_eq_true_eq] at ha
      rcases ha with ha | hone
      · exact hs i j a (servers_of_serverTask hi ha) (servers_of_serverTask hj ha) ha
      · exact hsole rfl a hone i j hi hj

/-- **The addresses stay unique throughout a run exactly when, in each of its rounds, every address reported by exactly
one intact reply is held by one server only.** -/
theorem unique_iff (rounds : List (Round n)) :
    (∀ front, front <+: rounds → (Mealy.run step (init n) front).Unique) ↔
      ∀ front r back, rounds = front ++ r :: back → (Mealy.run step (init n) front).finished = false →
        (Mealy.run step (init n) front).SoleHolder r := by
  have hinit : (init n).Unique := by
    intro i j a hi
    cases hi
  have hrun := Mealy.run_iff (step (n := n)) (P := Unique) (Q := fun s r => s.finished = false → s.SoleHolder r)
    unique_step
  constructor
  · intro h
    exact ((hrun rounds (init n)).1 (h rounds (List.prefix_refl rounds))).2
  · rintro h front ⟨rest, rfl⟩
    refine (hrun front (init n)).2 ⟨hinit, ?_⟩
    rintro front' r back rfl
    exact h front' r (back ++ rest) (by rw [List.append_assoc, List.cons_append])

/-- Two servers draw alike, and one of the two replies is lost or garbled. -/
def collision (fate : Fate) : Round 2 :=
  { hears := fun _ => true, draw := fun _ => 0, fate := fun i => if i = 0 then .intact else fate
    order := Equiv.refl _ }

theorem collision_not_unique :
    ¬ (Mealy.run step (init 2) [collision .lost]).Unique ∧
    ¬ (Mealy.run step (init 2) [collision .garbled]).Unique := by
  constructor
  · intro h
    exact absurd (h 0 1 1 (by decide +kernel) (by decide +kernel) (by decide +kernel)) (by decide)
  · intro h
    exact absurd (h 0 1 1 (by decide +kernel) (by decide +kernel) (by decide +kernel)) (by decide)

end Network
end Discovery
end FlipFlop
