import FlipFlop.DiscoveryWire
import FlipFlop.UpdateNonces
/-!
# DiscoveryNonces — the nonces of the servers' replies (`data/examples/discovery/main.rs`)

Every server counts its own tasks from 0, and all of them seal their replies under one key, from address 0 and port 0.
What two servers send as their first reply to the client's first request is therefore sealed under one nonce, whatever
addresses they picked (`reply_nonces`).
-/
namespace FlipFlop
namespace Discovery

open Rust Postcard
open SoftwareUpdate (Packet nonceOf nonceOf_framed add_ofNat_zero add_ofNat_succ)

variable {cipher : LinkCipher}

def Station.init : Station := { frameCounter := 0, serverAddress := none }

/-- A server's loop over the packets it receives, each with what the task would draw. -/
def Station.replies (cipher : LinkCipher) (s : Station) (received : List (UInt32 × Packet)) : List (Option Packet) :=
  Mealy.outputs (fun s (nextU32, encryptedPayload) => Station.turn cipher nextU32 s encryptedPayload) s received

/-- **Each turn moves the frame counter on**, whatever the packet, and a reply is sealed under the counter before. -/
theorem Station.turn_cases (hc : cipher.Lawful) (s : Station) (nextU32 : UInt32) (encryptedPayload : Packet) :
    (s.turn cipher nextU32 encryptedPayload).1.frameCounter = s.frameCounter + 1 ∧
    ∀ out, (s.turn cipher nextU32 encryptedPayload).2 = some out →
      ∃ identified,
        createServerReply cipher identified s.frameCounter (Vector.replicate MIN_PACKET_SIZE 0) = .ok out := by
  obtain ⟨-, address, -, reply, -, -, hpacket, -⟩ :=
    Server.packetTask_refines hc s.frameCounter s.serverAddress nextU32 encryptedPayload
  unfold turn
  rw [hpacket]
  refine ⟨rfl, ?_⟩
  rintro out rfl
  exact Server.reply_of_packetTask hpacket

/-- What a server sends on its `k`-th turn carries its counter moved on by `k`. -/
theorem Station.reply_of_turn (hc : cipher.Lawful) : ∀ (received : List (UInt32 × Packet)) (s : Station) (k : Nat)
    (out : Packet), (s.replies cipher received)[k]? = some (some out) →
    ∃ identified, createServerReply cipher identified (s.frameCounter + UInt16.ofNat k)
      (Vector.replicate MIN_PACKET_SIZE 0) = .ok out
  | [], _, _, _, h => by cases h
  | (nextU32, encryptedPayload) :: _, s, 0, out, h => by
    obtain ⟨-, hreply⟩ := s.turn_cases hc nextU32 encryptedPayload
    rw [add_ofNat_zero]
    exact hreply out (Option.some.inj h)
  | (nextU32, encryptedPayload) :: received, s, k + 1, out, h => by
    obtain ⟨hcounter, -⟩ := s.turn_cases hc nextU32 encryptedPayload
    have ih := reply_of_turn hc received (s.turn cipher nextU32 encryptedPayload).1 k out h
    rw [hcounter, ← add_ofNat_succ] at ih
    exact ih

theorem nonceOf_serverReply (hc : cipher.Lawful) {identified : Identified} {frameCounter : UInt16}
    {datagramBuf out : Packet} (h : createServerReply cipher identified frameCounter datagramBuf = .ok out) :
    nonceOf out = some (newNonce (serverReplyHeader frameCounter).toPacked 2) := by
  have hfit : (ser identified).length ≤ MIN_PAYLOAD_SIZE := by
    rw [length_ser_identified]
    decide
  obtain ⟨out', hout', hframed⟩ := createMessage_ok hc hfit (serverReplyHeader frameCounter) datagramBuf
  cases h.symm.trans hout'
  rw [nonceOf_framed hc hfit hframed, length_ser_identified]

/-- **The replies' nonces.**  Whatever two servers, or one, have received: the reply of the one's `k`-th task and that of
the other's `l`-th share a nonce exactly when `k` and `l` agree modulo 65536; they then are one packet exactly when the
client reads the same off both; and no request of the client's shares a nonce with them. -/
theorem reply_nonces (hc : cipher.Lawful) (received received' : List (UInt32 × Packet)) (k l : Nat) (p q : Packet)
    (hp : (Station.init.replies cipher received)[k]? = some (some p))
    (hq : (Station.init.replies cipher received')[l]? = some (some q)) :
    (nonceOf p = nonceOf q ↔ k % 65536 = l % 65536) ∧
    (nonceOf p = nonceOf q → (p = q ↔ processServerReply cipher p = processServerReply cipher q)) ∧
    ∀ identify frameCounter datagramBuf request,
      createClientRequest cipher identify frameCounter datagramBuf = .ok request → nonceOf request ≠ nonceOf p := by
  obtain ⟨identified, hcreated⟩ := Station.init.reply_of_turn hc received k p hp
  obtain ⟨identified', hcreated'⟩ := Station.init.reply_of_turn hc received' l q hq
  have hnonce := nonceOf_serverReply hc hcreated
  have hnonce' := nonceOf_serverReply hc hcreated'
  have hzero : ∀ k : Nat, Station.init.frameCounter + UInt16.ofNat k = UInt16.ofNat k := fun k => UInt16.zero_add _
  rw [hzero] at hcreated hcreated' hnonce hnonce'
  have hshared : nonceOf p = nonceOf q ↔ UInt16.ofNat k = UInt16.ofNat l := by
    rw [hnonce, hnonce', Option.some.injEq, nonce_eq_iff]
    constructor
    · rintro ⟨-, -, -, hcounter, -⟩
      exact hcounter
    · intro hcounter
      exact ⟨rfl, rfl, rfl, hcounter, rfl⟩
  refine ⟨?_, ?_, ?_⟩
  · rw [hshared, ← UInt16.toNat_inj, UInt16.toNat_ofNat', UInt16.toNat_ofNat']
  · intro hsame
    have hcounter := hshared.1 hsame
    constructor
    · rintro rfl
      rfl
    · intro hread
      -- each is read back as what it was made of
      obtain ⟨-, out, hout, hback, -⟩ :=
        createServerReply_ok hc identified (UInt16.ofNat k) (Vector.replicate MIN_PACKET_SIZE 0)
      obtain ⟨-, out', hout', hback', -⟩ :=
        createServerReply_ok hc identified' (UInt16.ofNat l) (Vector.replicate MIN_PACKET_SIZE 0)
      cases hcreated.symm.trans hout
      cases hcreated'.symm.trans hout'
      rw [hback, hback', Except.ok.injEq, Option.some.injEq] at hread
      rw [hread, hcounter, hcreated', Except.ok.injEq] at hcreated
      exact hcreated.symm
  · intro identify frameCounter datagramBuf request hrequest heq
    have hfit : (ser identify).length ≤ MIN_PAYLOAD_SIZE := Nat.le_of_eq (length_ser_identify identify)
    obtain ⟨out, hout, hframed⟩ := createMessage_ok hc hfit (clientRequestHeader frameCounter) datagramBuf
    cases hrequest.symm.trans hout
    rw [nonceOf_framed hc hfit hframed, hnonce, Option.some.injEq, nonce_eq_iff] at heq
    obtain ⟨hsource, -⟩ := heq
    cases hsource

/-- Two servers answer the first request with two addresses. -/
theorem reply_nonces_first_request :
    ∃ p q, (Station.init.replies exampleCipher [(0, identifyPacket)])[0]? = some (some p) ∧
      (Station.init.replies exampleCipher [(4, identifyPacket)])[0]? = some (some q) ∧
      nonceOf p = nonceOf q ∧ p ≠ q := by
  obtain ⟨p, hp⟩ : ∃ p, (Station.init.replies exampleCipher [(0, identifyPacket)])[0]? = some (some p) :=
    ⟨(Station.init.replies exampleCipher [(0, identifyPacket)])[0]?.join.getD identifyPacket, by decide +kernel⟩
  obtain ⟨q, hq⟩ : ∃ q, (Station.init.replies exampleCipher [(4, identifyPacket)])[0]? = some (some q) :=
    ⟨(Station.init.replies exampleCipher [(4, identifyPacket)])[0]?.join.getD identifyPacket, by decide +kernel⟩
  have happart : (Station.init.replies exampleCipher [(0, identifyPacket)])[0]?
      ≠ (Station.init.replies exampleCipher [(4, identifyPacket)])[0]? := by decide +kernel
  obtain ⟨hshared, -, -⟩ := reply_nonces exampleCipher_lawful [(0, identifyPacket)] [(4, identifyPacket)] 0 0 p q hp hq
  refine ⟨p, q, hp, hq, hshared.2 rfl, ?_⟩
  rintro rfl
  exact happart (hp.trans hq.symm)

end Discovery
end FlipFlop
