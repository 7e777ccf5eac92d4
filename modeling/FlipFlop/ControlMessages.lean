import FlipFlop.DiscoveryRun
import FlipFlop.UpdateServer
/-!
# ControlMessages — discovery's messages in their packets (`data/examples/discovery/main.rs`)

An `Identify` fills a payload to its last byte; an `Identified` and the update example's `PrepareForUpdate` are shorter.
Each is read by the processor it is for, and its port keeps it from those of the other example
(`controlMessages_survive`).  `Server.packetTask_refines` takes the server of `DiscoveryRun` down to the packets.
-/
namespace FlipFlop
namespace Discovery

open Rust Postcard
open SoftwareUpdate (Packet Update PrepareForUpdate requestFilter createPrepareUpdateRequest createUpdateRequest
  processClientPrepareForUpdateRequest processClientUpdateRequest)

def clientRequestHeader (frameCounter : UInt16) : Header :=
  { version := 0, source := .client, serverAddress := 0, serverPort := 0, frameCounter }

def serverReplyHeader (frameCounter : UInt16) : Header :=
  { version := 0, source := .server, serverAddress := 0, serverPort := 0, frameCounter }

def clientRequestFilter (h : Header) : Bool := h.serverAddress == 0x00 && h.serverPort == 0x00 && h.source == .client

def serverReplyFilter (h : Header) : Bool := h.serverAddress == 0x00 && h.serverPort == 0x00 && h.source == .server

section Packets

variable (cipher : LinkCipher)

def createClientRequest (identify : Identify) (frameCounter : UInt16) (datagramBuf : Packet) : Except Panic Packet :=
  createMessage cipher (clientRequestHeader frameCounter) identify datagramBuf

def processServerReply (datagramBuf : Packet) : Except Panic (Option Identified) :=
  processMessage cipher serverReplyFilter datagramBuf

def processClientRequest (datagramBuf : Packet) : Except Panic (Option Identify) :=
  processMessage cipher clientRequestFilter datagramBuf

/-- What `try_create_server_reply` does with the address it picked. -/
def createServerReply (identified : Identified) (frameCounter : UInt16) (datagramBuf : Packet) : Except Panic Packet :=
  createMessage cipher (serverReplyHeader frameCounter) identified datagramBuf

/-- The reply, and what the buffer holds then. -/
def tryCreateServerReply (identify : Identify) (frameCounter : UInt16) (nextU32 : UInt32) (datagramBuf : Packet) :
    Except Panic (Option Identified × Packet) := do
  match ← Identified.withRandomAddress identify.iter nextU32 0b00000010 with
  | some identified =>
    let datagramBuf ← createServerReply cipher identified frameCounter datagramBuf
    return (some identified, datagramBuf)
  | none => return (none, datagramBuf)

/-- `server::task`, from the packet it receives to the packet it sends. -/
def Server.packetTask (frameCounter : UInt16) (serverAddress : Option UInt8) (nextU32 : UInt32)
    (encryptedPayload : Packet) : Except Panic (Option UInt8 × Option Packet) := do
  let datagramBuf := Vector.replicate MIN_PACKET_SIZE 0
  match ← processClientRequest cipher encryptedPayload with
  | some identify =>
    if (serverAddress.map (fun sa => !identify.isAddressSet sa)).getD true then
      match ← tryCreateServerReply cipher identify frameCounter nextU32 datagramBuf with
      | (some identified, datagramBuf) => return (some identified.serverAddress, some datagramBuf)
      | (none, _) => return (serverAddress, none)
    else return (serverAddress, none)
  | none => return (serverAddress, none)

end Packets

/-! ## Which packets the processors turn away -/

/-- The processors of the update example turn the packet away at their filter, under whatever keys they have. -/
structure UpdateRejects (datagram : Packet) : Prop where
  filtered : ∀ other, fromDatagram datagram requestFilter other = .ok (.error .filterDoesNotMatch)
  prepare : ∀ other, processClientPrepareForUpdateRequest other datagram = .ok none
  update : ∀ N other, processClientUpdateRequest N other datagram = .ok none

/-- The processors of the discovery example do. -/
structure DiscoveryRejects (datagram : Packet) : Prop where
  filtered : ∀ other, fromDatagram datagram clientRequestFilter other = .ok (.error .filterDoesNotMatch) ∧
    fromDatagram datagram serverReplyFilter other = .ok (.error .filterDoesNotMatch)
  request : ∀ other, processClientRequest other datagram = .ok none
  reply : ∀ other, processServerReply other datagram = .ok none

section Rejects

variable {α : Type} [Serde α] {cipher : LinkCipher} (hc : cipher.Lawful) {message : α}
  (hfit : (ser message).length ≤ MIN_PAYLOAD_SIZE) {header : Header} {datagram : Packet}
  (h : Framed cipher header message datagram) (hv : header.version = 0) (hp : header.serverPort ≤ 7)
include hc hfit h hv hp

theorem Framed.updateRejects (hf : requestFilter header = false) : UpdateRejects datagram := by
  have hfiltered := h.filtered hc hfit hv hp hf
  exact ⟨hfiltered, fun other => processMessage_of_error (hfiltered other),
    fun _ other => processMessage_of_error (hfiltered other)⟩

theorem Framed.discoveryRejects (hrequest : clientRequestFilter header = false)
    (hreply : serverReplyFilter header = false) : DiscoveryRejects datagram := by
  have hfiltered := h.filtered hc hfit hv hp hrequest
  have hfiltered' := h.filtered hc hfit hv hp hreply
  exact ⟨fun other => ⟨hfiltered other, hfiltered' other⟩, fun other => processMessage_of_error (hfiltered other),
    fun other => processMessage_of_error (hfiltered' other)⟩

end Rejects

/-! ## Each message and its processor -/

section Trip

variable {cipher : LinkCipher} (hc : cipher.Lawful)
include hc

theorem createClientRequest_ok (identify : Identify) (frameCounter : UInt16) (datagramBuf : Packet) :
    (ser identify).length ≤ MIN_PAYLOAD_SIZE ∧ ∃ out,
      createClientRequest cipher identify frameCounter datagramBuf = .ok out ∧
      processClientRequest cipher out = .ok (some identify) ∧ UpdateRejects out := by
  have hfit : (ser identify).length ≤ MIN_PAYLOAD_SIZE := Nat.le_of_eq (length_ser_identify identify)
  have hport : (clientRequestHeader frameCounter).serverPort ≤ 7 := (by decide : (0 : UInt8) ≤ 7)
  obtain ⟨out, hout, hframed⟩ := createMessage_ok hc hfit (clientRequestHeader frameCounter) datagramBuf
  exact ⟨hfit, out, hout, hframed.processMessage hc hfit rfl hport rfl (fromBytes_ser identify),
    hframed.updateRejects hc hfit rfl hport rfl⟩

theorem createServerReply_ok (identified : Identified) (frameCounter : UInt16) (datagramBuf : Packet) :
    (ser identified).length ≤ MIN_PAYLOAD_SIZE ∧ ∃ out,
      createServerReply cipher identified frameCounter datagramBuf = .ok out ∧
      processServerReply cipher out = .ok (some identified) ∧ UpdateRejects out := by
  have hfit : (ser identified).length ≤ MIN_PAYLOAD_SIZE := by
    rw [length_ser_identified]
    decide
  have hport : (serverReplyHeader frameCounter).serverPort ≤ 7 := (by decide : (0 : UInt8) ≤ 7)
  obtain ⟨out, hout, hframed⟩ := createMessage_ok hc hfit (serverReplyHeader frameCounter) datagramBuf
  exact ⟨hfit, out, hout, hframed.processMessage hc hfit rfl hport rfl (fromBytes_ser identified),
    hframed.updateRejects hc hfit rfl hport rfl⟩

/-- An update's requests, of either kind, are none of discovery's business. -/
theorem createRequest_discoveryRejects {α : Type} [Serde α] {message : α} {frameCounter : UInt16}
    {datagramBuf out : Packet} (hout : SoftwareUpdate.createRequest cipher message frameCounter datagramBuf = .ok out) :
    DiscoveryRejects out := by
  have hport := SoftwareUpdate.serverPort_requestHeader frameCounter
  by_cases hfit : (ser message).length ≤ MIN_PAYLOAD_SIZE
  · obtain ⟨out', hout', hframed⟩ := SoftwareUpdate.createRequest_ok hc hfit frameCounter datagramBuf
    cases hout.symm.trans hout'
    exact Framed.discoveryRejects hc hfit hframed rfl hport rfl rfl
  · rw [SoftwareUpdate.createRequest_panics (by omega)] at hout
    cases hout

theorem createPrepareUpdateRequest_ok (prepare : PrepareForUpdate) (frameCounter : UInt16) (datagramBuf : Packet) :
    (ser prepare).length ≤ MIN_PAYLOAD_SIZE ∧ ∃ out,
      createPrepareUpdateRequest cipher prepare frameCounter datagramBuf = .ok out ∧
      processClientPrepareForUpdateRequest cipher out = .ok (some prepare) ∧ DiscoveryRejects out := by
  have hfit : (ser prepare).length ≤ MIN_PAYLOAD_SIZE :=
    Nat.le_trans (SoftwareUpdate.length_ser_prepare_le prepare) (by decide)
  obtain ⟨out, hout, hframes⟩ := SoftwareUpdate.createRequest_ok hc hfit frameCounter datagramBuf
  have hcarries : SoftwareUpdate.Carries cipher prepare out := ⟨hfit, frameCounter, hframes⟩
  exact ⟨hfit, out, hout, hcarries.processRequest hc (fromBytes_ser prepare), createRequest_discoveryRejects hc hout⟩

/-- A server's reply is an address of its picking, in a packet that is read back, or no reply. -/
theorem tryCreateServerReply_ok (identify : Identify) (frameCounter : UInt16) (nextU32 : UInt32) (datagramBuf : Packet) :
    ∃ reply out, Identified.withRandomAddress identify.iter nextU32 0b00000010 = .ok reply ∧
      tryCreateServerReply cipher identify frameCounter nextU32 datagramBuf = .ok (reply, out) ∧
      ∀ identified, reply = some identified → processServerReply cipher out = .ok (some identified) := by
  obtain ⟨reply, hreply⟩ : ∃ reply, Identified.withRandomAddress identify.iter nextU32 0b00000010 = .ok reply :=
    ⟨_, withRandomAddress_eq identify nextU32 0b00000010⟩
  cases reply with
  | none =>
    refine ⟨none, datagramBuf, hreply, ?_, fun identified h => by cases h⟩
    simp only [tryCreateServerReply, hreply, bind, Except.bind]
    rfl
  | some identified =>
    obtain ⟨-, out, hout, hread, -⟩ := createServerReply_ok hc identified frameCounter datagramBuf
    refine ⟨some identified, out, hreply, ?_, fun identified' h => ?_⟩
    · simp only [tryCreateServerReply, hreply, hout, bind, Except.bind]
      rfl
    · cases h
      exact hread

/-- **The server on packets is the server on messages**: it does with a packet what `Server.task` does with what
`process_client_request` makes of it, and the client reads the reply off the packet it sends. -/
theorem Server.packetTask_refines (frameCounter : UInt16) (serverAddress : Option UInt8) (nextU32 : UInt32)
    (encryptedPayload : Packet) : ∃ request address identified reply,
      processClientRequest cipher encryptedPayload = .ok request ∧
      Server.task request serverAddress nextU32 = .ok (address, identified) ∧
      Server.packetTask cipher frameCounter serverAddress nextU32 encryptedPayload = .ok (address, reply) ∧
      reply.map (processServerReply cipher) = identified.map (fun i => .ok (some i)) := by
  obtain ⟨request, hrequest⟩ := processMessage_total (α := Identify) cipher clientRequestFilter encryptedPayload
  have hrequest : processClientRequest cipher encryptedPayload = .ok request := hrequest
  cases request with
  | none =>
    refine ⟨none, serverAddress, none, none, hrequest, rfl, ?_, rfl⟩
    simp only [packetTask, hrequest, bind, Except.bind]
    rfl
  | some identify =>
    by_cases hfree : (serverAddress.map (fun sa => !identify.isAddressSet sa)).getD true = true
    · obtain ⟨reply, out, hpick, hreply, hread⟩ :=
        tryCreateServerReply_ok hc identify frameCounter nextU32 (Vector.replicate MIN_PACKET_SIZE 0)
      cases reply with
      | none =>
        refine ⟨some identify, serverAddress, none, none, hrequest, ?_, ?_, rfl⟩
        · simp only [task, hfree, if_true, hpick, bind, Except.bind]
          rfl
        · simp only [packetTask, hrequest, hfree, if_true, hreply, bind, Except.bind]
          rfl
      | some identified =>
        refine ⟨some identify, some identified.serverAddress, some identified, some out, hrequest, ?_, ?_, ?_⟩
        · simp only [task, hfree, if_true, hpick, bind, Except.bind]
          rfl
        · simp only [packetTask, hrequest, hfree, if_true, hreply, bind, Except.bind]
          rfl
        · rw [Option.map_some, hread identified rfl]
          rfl
    · refine ⟨some identify, serverAddress, none, none, hrequest, ?_, ?_, rfl⟩
      · simp only [task, hfree]
        rfl
      · simp only [packetTask, hrequest, hfree, bind, Except.bind]
        rfl

end Trip

/-- **Every control message fits and survives the trip.**  Whatever the message, the frame counter and what the buffer
held: the encoding fits a payload, the packet is made without a panic, the processor it is for reads the message back
under the same key, and the processors of the other example turn the packet away at their filters.  A server's reply is
read back the same, and an update's pieces are turned away by discovery as its prepare message is. -/
theorem controlMessages_survive {cipher : LinkCipher} (hc : cipher.Lawful) (frameCounter : UInt16)
    (datagramBuf : Packet) :
    (∀ identify : Identify, (ser identify).length ≤ MIN_PAYLOAD_SIZE ∧
      ∃ out, createClientRequest cipher identify frameCounter datagramBuf = .ok out ∧
        processClientRequest cipher out = .ok (some identify) ∧ UpdateRejects out) ∧
    (∀ identified : Identified, (ser identified).length ≤ MIN_PAYLOAD_SIZE ∧
      ∃ out, createServerReply cipher identified frameCounter datagramBuf = .ok out ∧
        processServerReply cipher out = .ok (some identified) ∧ UpdateRejects out) ∧
    (∀ (identify : Identify) (nextU32 : UInt32), ∃ reply out,
      Identified.withRandomAddress identify.iter nextU32 0b00000010 = .ok reply ∧
      tryCreateServerReply cipher identify frameCounter nextU32 datagramBuf = .ok (reply, out) ∧
      ∀ identified, reply = some identified → processServerReply cipher out = .ok (some identified)) ∧
    (∀ prepare : PrepareForUpdate, (ser prepare).length ≤ MIN_PAYLOAD_SIZE ∧
      ∃ out, createPrepareUpdateRequest cipher prepare frameCounter datagramBuf = .ok out ∧
        processClientPrepareForUpdateRequest cipher out = .ok (some prepare) ∧ DiscoveryRejects out) ∧
    (∀ (N : Nat) (update : Update N) (out : Packet),
      createUpdateRequest cipher update frameCounter datagramBuf = .ok out → DiscoveryRejects out) := by
  refine ⟨?_, ?_, ?_, ?_, ?_⟩
  · intro identify
    exact createClientRequest_ok hc identify frameCounter datagramBuf
  · intro identified
    exact createServerReply_ok hc identified frameCounter datagramBuf
  · intro identify nextU32
    exact tryCreateServerReply_ok hc identify frameCounter nextU32 datagramBuf
  · intro prepare
    exact createPrepareUpdateRequest_ok hc prepare frameCounter datagramBuf
  · intro N update out hout
    exact createRequest_discoveryRejects hc hout

/-! ### The first request -/

/-- The key is `b"0000000000000000"`. -/
def exampleCipher : LinkCipher := (AesCcm.new (Vector.replicate 16 48)).toCipher

theorem exampleCipher_lawful : exampleCipher.Lawful := AesCcm.new_lawful _

/-- What `main` broadcasts first. -/
def firstIdentify : Identify := Identify.setAddress { addresses := Vector.replicate MIN_PAYLOAD_SIZE 0 } 0

def identifyPacket : Packet :=
  #v[0, 0, 0, 0, 36, 158, 174, 237, 17, 6, 251, 73, 8, 210, 48, 225, 161, 127, 206, 36, 115, 244, 45, 141, 29, 21, 233, 215,
    179, 32, 4, 178, 68, 11, 212, 207, 207, 65, 150, 130, 169, 0]

theorem firstIdentify_survives :
    exampleCipher.Lawful ∧
    createClientRequest exampleCipher firstIdentify 0 (Vector.replicate MIN_PACKET_SIZE 0) = .ok identifyPacket ∧
    processClientRequest exampleCipher identifyPacket = .ok (some firstIdentify) ∧ UpdateRejects identifyPacket := by
  have hsent : createClientRequest exampleCipher firstIdentify 0 (Vector.replicate MIN_PACKET_SIZE 0)
      = .ok identifyPacket := by decide +kernel
  obtain ⟨-, out, hout, hread, hrejects⟩ :=
    (controlMessages_survive exampleCipher_lawful 0 (Vector.replicate MIN_PACKET_SIZE 0)).1 firstIdentify
  cases hsent.symm.trans hout
  exact ⟨exampleCipher_lawful, hsent, hread, hrejects⟩

end Discovery
end FlipFlop
