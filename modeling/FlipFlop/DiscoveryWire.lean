import FlipFlop.ControlMessages
/-!
# DiscoveryWire — the discovery example on packets (`data/examples/discovery/main.rs`)

All tasks share one medium: a server's loop hands `server::task` whatever packet comes next, the client's request, noise
or what another server has sent, and the client reads whatever arrives in its window.  A round of packets is a round of
`DiscoveryRun` nevertheless (`packet_rounds_refine`): a server's reply is no request to another, and what does not open
is as good as lost to a server and as good as garbled to the client.
-/
namespace FlipFlop
namespace Discovery

open Rust Postcard
open SoftwareUpdate (Packet)

variable {n : Nat}

/-- What a server's loop keeps from task to task. -/
structure Station where
  frameCounter : UInt16
  serverAddress : Option UInt8

/-- A turn of the loop: the task runs on the packet received, and the frame counter moves on. -/
def Station.turn (cipher : LinkCipher) (nextU32 : UInt32) (s : Station) (encryptedPayload : Packet) :
    Station × Option Packet :=
  match Server.packetTask cipher s.frameCounter s.serverAddress nextU32 encryptedPayload with
  | .ok (serverAddress, reply) => ({ frameCounter := s.frameCounter + 1, serverAddress }, reply)
  | .error _ => (s, none)

/-- The turns on packets whose replies, if any, come too late for the round. -/
def Station.turns (cipher : LinkCipher) (nextU32 : UInt32) (s : Station) (packets : List Packet) : Station :=
  packets.foldl (fun s p => (s.turn cipher nextU32 p).1) s

/-- What `client::task` does with the packets of its window. -/
def Client.packetTask (cipher : LinkCipher) (identify : Identify) (packets : List Packet) :
    Except Panic (Identify × Bool) := do
  let received ← packets.mapM (processServerReply cipher)
  return Client.task identify received

/-- What arrives at the client in a reply's place. -/
inductive PacketFate
  | intact
  | garbled (p : Packet)
  | lost

def PacketFate.deliver : PacketFate → Packet → Option Packet
  | .intact, p => some p
  | .garbled p, _ => some p
  | .lost, _ => none

/-- What a server overhears after the request: another server's reply, or noise. -/
inductive Overheard (n : Nat)
  | reply (j : Fin n)
  | noise (p : Packet)

structure PacketRound (n : Nat) where
  hears : Fin n → Bool
  before : Fin n → List Packet
  overheard : Fin n → List (Overheard n)
  draw : Fin n → UInt32
  fate : Fin n → PacketFate
  order : Equiv.Perm (Fin n)

structure PacketNetwork (n : Nat) where
  identify : Identify
  frameCounter : UInt16
  servers : Fin n → Station
  finished : Bool

namespace PacketNetwork

def init (n : Nat) : PacketNetwork n :=
  { identify := (Network.init n).identify
    frameCounter := 0
    servers := fun _ => { frameCounter := 0, serverAddress := none }
    finished := false }

section Step

variable (cipher : LinkCipher) (s : PacketNetwork n) (r : PacketRound n) (request : Packet)

/-- A server up to the request, if it hears it, and the packet it sends. -/
def answer (i : Fin n) : Station × Option Packet :=
  let station := (s.servers i).turns cipher (r.draw i) (r.before i)
  if r.hears i then station.turn cipher (r.draw i) request else (station, none)

def packetsOf (overheard : List (Overheard n)) : List Packet :=
  overheard.filterMap (fun
    | .reply j => (s.answer cipher r request j).2
    | .noise p => some p)

/-- The server at the end of the round. -/
def station (i : Fin n) : Station :=
  (s.answer cipher r request i).1.turns cipher (r.draw i) (s.packetsOf cipher r request (r.overheard i))

/-- The packets of the client's window. -/
def window : List Packet :=
  ((List.finRange n).map r.order).filterMap (fun i => (s.answer cipher r request i).2.bind (r.fate i).deliver)

end Step

/-- One turn of `main`'s loop: `client::task` on an empty buffer, with the servers' loops running. -/
def step (cipher : LinkCipher) (s : PacketNetwork n) (r : PacketRound n) : PacketNetwork n × Bool :=
  if s.finished then (s, true)
  else
    match createClientRequest cipher s.identify s.frameCounter (Vector.replicate MIN_PACKET_SIZE 0) with
    | .error _ => (s, false)
    | .ok request =>
      match Client.packetTask cipher s.identify (s.window cipher r request) with
      | .error _ => (s, false)
      | .ok (identify, finished) =>
        ({ identify
           frameCounter := if finished then s.frameCounter else s.frameCounter + 1
           servers := s.station cipher r request
           finished }, finished)

/-- The network without its packets. -/
def network (s : PacketNetwork n) : Network n :=
  { identify := s.identify, servers := fun i => (s.servers i).serverAddress, finished := s.finished }

end PacketNetwork

def PacketFate.fate : PacketFate → Fate
  | .intact => .intact
  | .garbled _ => .garbled
  | .lost => .lost

def PacketRound.round (r : PacketRound n) : Round n :=
  { hears := r.hears, draw := r.draw, fate := fun i => (r.fate i).fate, order := r.order }

/-- Noise opens neither as a request nor as a reply. -/
structure PacketRound.Unforged (cipher : LinkCipher) (r : PacketRound n) : Prop where
  before : ∀ i, ∀ p ∈ r.before i, processClientRequest cipher p = .ok none
  overheard : ∀ i p, .noise p ∈ r.overheard i → processClientRequest cipher p = .ok none
  garbled : ∀ i p, r.fate i = .garbled p → processServerReply cipher p = .ok none

/-! ## What a server makes of a packet -/

theorem clientRequestFilter_serverReply (frameCounter : UInt16) :
    clientRequestFilter (serverReplyHeader frameCounter) = false := rfl

variable {cipher : LinkCipher}

/-- **A reply is no request**, whoever hears it. -/
theorem processClientRequest_reply (hc : cipher.Lawful) {identified : Identified} {frameCounter : UInt16}
    {datagramBuf out : Packet} (hout : createServerReply cipher identified frameCounter datagramBuf = .ok out)
    (other : LinkCipher) : processClientRequest other out = .ok none := by
  have hfit : (ser identified).length ≤ MIN_PAYLOAD_SIZE := by
    rw [length_ser_identified]
    decide
  have hport : (serverReplyHeader frameCounter).serverPort ≤ 7 := (by decide : (0 : UInt8) ≤ 7)
  obtain ⟨out', hout', hframed⟩ := createMessage_ok hc hfit (serverReplyHeader frameCounter) datagramBuf
  cases hout.symm.trans hout'
  exact processMessage_of_error
    (hframed.filtered hc hfit rfl hport (clientRequestFilter_serverReply frameCounter) other)

theorem createServerReply_of_tryCreate {identify : Identify} {frameCounter : UInt16} {nextU32 : UInt32}
    {datagramBuf out : Packet} {identified : Identified}
    (h : tryCreateServerReply cipher identify frameCounter nextU32 datagramBuf = .ok (some identified, out)) :
    createServerReply cipher identified frameCounter datagramBuf = .ok out := by
  unfold tryCreateServerReply at h
  simp only [withRandomAddress_eq, bind, Except.bind] at h
  split at h
  · rename_i identified' _
    cases hreply : createServerReply cipher identified' frameCounter datagramBuf with
    | error e =>
      simp only [hreply] at h
      cases h
    | ok out' =>
      simp only [hreply] at h
      cases h
      exact hreply
  · cases h

/-- What a server sends is a reply. -/
theorem Server.reply_of_packetTask {frameCounter : UInt16} {serverAddress address : Option UInt8} {nextU32 : UInt32}
    {encryptedPayload out : Packet}
    (h : packetTask cipher frameCounter serverAddress nextU32 encryptedPayload = .ok (address, some out)) :
    ∃ identified, createServerReply cipher identified frameCounter (Vector.replicate MIN_PACKET_SIZE 0) = .ok out := by
  obtain ⟨request, hrequest⟩ := processMessage_total (α := Identify) cipher clientRequestFilter encryptedPayload
  have hrequest : processClientRequest cipher encryptedPayload = .ok request := hrequest
  simp only [packetTask, hrequest, bind, Except.bind] at h
  cases request with
  | none => cases h
  | some identify =>
    simp only at h
    split at h
    · cases hreply : tryCreateServerReply cipher identify frameCounter nextU32 (Vector.replicate MIN_PACKET_SIZE 0) with
      | error e =>
        simp only [hreply] at h
        cases h
      | ok reply =>
        obtain ⟨_ | identified, out'⟩ := reply
        · simp only [hreply] at h
          cases h
        · simp only [hreply] at h
          cases h
          exact ⟨identified, createServerReply_of_tryCreate hreply⟩
    · cases h

/-- A turn on packets is `Server.task` on what the packet says. -/
theorem Station.turn_eq (hc : cipher.Lawful) (s : Station) (nextU32 : UInt32) {encryptedPayload : Packet}
    {request : Option Identify} (hrequest : processClientRequest cipher encryptedPayload = .ok request) :
    ∃ address identified reply, Server.task request s.serverAddress nextU32 = .ok (address, identified) ∧
      s.turn cipher nextU32 encryptedPayload
        = ({ frameCounter := s.frameCounter + 1, serverAddress := address }, reply) ∧
      reply.map (processServerReply cipher) = identified.map (fun i => .ok (some i)) ∧
      ∀ out, reply = some out → processClientRequest cipher out = .ok none := by
  obtain ⟨request', address, identified, reply, hrequest', htask, hpacket, hread⟩ :=
    Server.packetTask_refines hc s.frameCounter s.serverAddress nextU32 encryptedPayload
  cases hrequest.symm.trans hrequest'
  refine ⟨address, identified, reply, htask, ?_, hread, ?_⟩
  · simp only [turn, hpacket]
  · rintro out rfl
    obtain ⟨_, hout⟩ := Server.reply_of_packetTask hpacket
    exact processClientRequest_reply hc hout cipher

/-- **What is no request changes nothing but the frame counter.** -/
theorem Station.turn_of_noise (hc : cipher.Lawful) (s : Station) (nextU32 : UInt32) {p : Packet}
    (hp : processClientRequest cipher p = .ok none) :
    s.turn cipher nextU32 p = ({ s with frameCounter := s.frameCounter + 1 }, none) := by
  obtain ⟨address, identified, reply, htask, hturn, hread, -⟩ := s.turn_eq hc nextU32 hp
  cases htask
  rw [hturn]
  cases reply with
  | none => rfl
  | some out => cases hread

theorem Station.turns_of_noise (hc : cipher.Lawful) (nextU32 : UInt32) : ∀ (packets : List Packet) (s : Station),
    (∀ p ∈ packets, processClientRequest cipher p = .ok none) →
    (s.turns cipher nextU32 packets).serverAddress = s.serverAddress
  | [], _, _ => rfl
  | p :: packets, s, h => by
    have hp := s.turn_of_noise hc nextU32 (h p List.mem_cons_self)
    have ih := turns_of_noise hc nextU32 packets (s.turn cipher nextU32 p).1
      (fun q hq => h q (List.mem_cons_of_mem p hq))
    rw [turns, List.foldl_cons]
    rw [hp] at ih ⊢
    exact ih

/-! ## A round of packets is a round -/

theorem mapM_filterMap {ι α β : Type} {f : ι → Option α} {g : ι → Option β} (read : α → Except Panic β)
    (h : ∀ i, (f i).map read = (g i).map .ok) : ∀ l : List ι, (l.filterMap f).mapM read = .ok (l.filterMap g)
  | [] => rfl
  | i :: l => by
    have ih := mapM_filterMap read h l
    have hi := h i
    cases hf : f i with
    | none =>
      rw [hf, Option.map_none] at hi
      rw [List.filterMap_cons_none hf, List.filterMap_cons_none (Option.map_eq_none_iff.1 hi.symm)]
      exact ih
    | some a =>
      rw [hf, Option.map_some] at hi
      obtain ⟨b, hg, hb⟩ := Option.map_eq_some_iff.1 hi.symm
      rw [List.filterMap_cons_some hf, List.filterMap_cons_some hg, List.mapM_cons, ← hb, ih]
      rfl

namespace PacketNetwork

section Round

variable (hc : cipher.Lawful) (s : PacketNetwork n) {r : PacketRound n} (hr : r.Unforged cipher) {request : Packet}
  (hrequest : processClientRequest cipher request = .ok (some s.identify))
include hc hr hrequest

/-- Each server does what it does in the round without packets, and what it sends is its reply and no request. -/
theorem answer_eq (i : Fin n) :
    (s.answer cipher r request i).1.serverAddress = (s.network.serverTask r.round i).1 ∧
    (s.answer cipher r request i).2.map (processServerReply cipher)
      = (s.network.serverTask r.round i).2.map (fun identified => .ok (some identified)) ∧
    ∀ out, (s.answer cipher r request i).2 = some out → processClientRequest cipher out = .ok none := by
  have hbefore := Station.turns_of_noise hc (r.draw i) (r.before i) (s.servers i) (hr.before i)
  unfold answer Network.serverTask
  cases hhears : r.hears i with
  | false =>
    refine ⟨?_, ?_, ?_⟩
    · simp only [Bool.false_eq_true, if_false, PacketRound.round, hhears, Server.task]
      exact hbefore
    · simp [PacketRound.round, hhears, Server.task]
    · intro out hout
      simp at hout
  | true =>
    obtain ⟨address, identified, reply, htask, hturn, hread, hnot⟩ :=
      ((s.servers i).turns cipher (r.draw i) (r.before i)).turn_eq hc (r.draw i) hrequest
    rw [hbefore] at htask
    have htask' : Server.task (if r.round.hears i then some s.network.identify else none) (s.network.servers i)
        (r.round.draw i) = .ok (address, identified) := by
      simp only [PacketRound.round, hhears, if_true]
      exact htask
    simp only [if_true, hturn, htask']
    exact ⟨trivial, hread, hnot⟩

/-- What a server overhears leaves its address as it is. -/
theorem station_eq (i : Fin n) :
    (s.station cipher r request i).serverAddress = (s.network.serverTask r.round i).1 := by
  rw [station, Station.turns_of_noise hc, (s.answer_eq hc hr hrequest i).1]
  intro p hp
  obtain ⟨o, ho, hop⟩ := List.mem_filterMap.1 hp
  cases o with
  | reply j => exact (s.answer_eq hc hr hrequest j).2.2 p hop
  | noise q =>
    cases hop
    exact hr.overheard i p ho

/-- What reaches the client in a reply's place says what reaches it in the round without packets. -/
theorem deliver_eq (i : Fin n) :
    ((s.answer cipher r request i).2.bind (r.fate i).deliver).map (processServerReply cipher)
      = ((s.network.serverTask r.round i).2.bind (r.round.fate i).deliver).map .ok := by
  obtain ⟨-, hread, -⟩ := s.answer_eq hc hr hrequest i
  have hgarbled := hr.garbled i
  simp only [PacketRound.round] at hread ⊢
  cases hreply : (s.answer cipher r request i).2 with
  | none =>
    rw [hreply, Option.map_none] at hread
    rw [Option.map_eq_none_iff.1 hread.symm]
    rfl
  | some out =>
    rw [hreply, Option.map_some] at hread
    obtain ⟨identified, hidentified, hout⟩ := Option.map_eq_some_iff.1 hread.symm
    rw [hidentified]
    cases hfate : r.fate i with
    | intact => exact congrArg some hout.symm
    | garbled p => exact congrArg some (hgarbled p hfate)
    | lost => rfl

theorem packetTask_window :
    Client.packetTask cipher s.identify (s.window cipher r request)
      = .ok (Client.task s.network.identify (s.network.received r.round)) := by
  have hwindow := mapM_filterMap (processServerReply cipher) (s.deliver_eq hc hr hrequest)
    ((List.finRange n).map r.order)
  unfold Client.packetTask window
  rw [hwindow]
  rfl

end Round

/-- **A round of packets is a round**, and no task in it panics. -/
theorem step_network (hc : cipher.Lawful) (s : PacketNetwork n) {r : PacketRound n} (hr : r.Unforged cipher) :
    s.network.step r.round = ((s.step cipher r).1.network, (s.step cipher r).2) := by
  obtain ⟨-, request, hsent, hrequest, -⟩ :=
    createClientRequest_ok hc s.identify s.frameCounter (Vector.replicate MIN_PACKET_SIZE 0)
  have hclient := s.packetTask_window hc hr hrequest
  have hservers : (fun i => (s.station cipher r request i).serverAddress)
      = fun i => (s.network.serverTask r.round i).1 :=
    funext (s.station_eq hc hr hrequest)
  have hsame : s.network.finished = s.finished := rfl
  unfold Network.step step
  simp only [hsent, hclient, hsame]
  cases hfinished : s.finished with
  | true => rfl
  | false =>
    simp only [Bool.false_eq_true, if_false]
    rw [← hservers]
    rfl

/-- **Discovery on packets is discovery.**  Whatever else is on the air, as long as nobody else holds the key: the
addresses the client has set, the servers' own and whether `client::task` has returned `true` are, after any rounds of
packets, those of `DiscoveryRun`'s rounds, in which a server's overheard packets play no part. -/
theorem packet_rounds_refine (hc : cipher.Lawful) (rounds : List (PacketRound n))
    (hr : ∀ r ∈ rounds, r.Unforged cipher) :
    (Mealy.run (step cipher) (init n) rounds).network
      = Mealy.run Network.step (Network.init n) (rounds.map PacketRound.round) ∧
    Mealy.outputs (step cipher) (init n) rounds
      = Mealy.outputs Network.step (Network.init n) (rounds.map PacketRound.round) :=
  Mealy.run_simulates rounds (init n) (fun s r hmem => s.step_network hc (hr r hmem))

/-- Two servers that draw alike at first and apart then; each hears noise and the other's reply. -/
def examplePacketRounds : List (PacketRound 2) :=
  [0, 4].map (fun k =>
    { hears := fun _ => true
      before := fun _ => [Vector.replicate MIN_PACKET_SIZE 0]
      overheard := fun i => [.reply i.rev, .noise (Vector.replicate MIN_PACKET_SIZE 0)]
      draw := fun i => UInt32.ofNat (k * i)
      fate := fun _ => .intact
      order := Equiv.refl _ })

theorem examplePacketRounds_unforged : ∀ r ∈ examplePacketRounds, r.Unforged exampleCipher := by
  have hnoise : processClientRequest exampleCipher (Vector.replicate MIN_PACKET_SIZE 0) = .ok none := by decide +kernel
  intro r hr
  obtain ⟨k, -, rfl⟩ := List.mem_map.1 hr
  refine ⟨?_, ?_, ?_⟩
  · intro i p hp
    cases List.mem_singleton.1 hp
    exact hnoise
  · intro i p hp
    simp only [List.mem_cons, List.not_mem_nil, or_false, reduceCtorEq, Overheard.noise.injEq, false_or] at hp
    cases hp
    exact hnoise
  · intro i p hp
    cases hp

theorem packet_rounds_refine_two_servers :
    (Mealy.run (step exampleCipher) (init 2) examplePacketRounds).network.servers = ![some 1, some 5] ∧
    Mealy.outputs (step exampleCipher) (init 2) examplePacketRounds = [false, true] := by
  obtain ⟨hnetwork, houtputs⟩ :=
    packet_rounds_refine exampleCipher_lawful examplePacketRounds examplePacketRounds_unforged
  rw [hnetwork, houtputs]
  constructor
  · decide +kernel
  · decide +kernel

end PacketNetwork
end Discovery
end FlipFlop
