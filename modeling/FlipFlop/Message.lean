import FlipFlop.Discovery
/-!
# Message — one message in one packet (`data/examples`)

The messages of discovery and of an update all take the same way: postcard and `to_datagram` at one end, `from_datagram`
with a filter on the header and postcard at the other.  A packet is read where the filter wants its header and the key
is the one it was sealed with (`Framed.processMessage`), and nowhere else.
-/
namespace FlipFlop
namespace Discovery

open Rust Postcard

variable {α : Type} [Serde α]

def createMessage (cipher : LinkCipher) (header : Header) (message : α) (datagramBuf : Vector UInt8 MIN_PACKET_SIZE) :
    Except Panic (Vector UInt8 MIN_PACKET_SIZE) := do
  let payload ← unwrap (toVec MIN_PAYLOAD_SIZE message)
  toDatagram cipher header payload.toList datagramBuf

def processMessage (cipher : LinkCipher) (filter : Header → Bool) (datagramBuf : Vector UInt8 MIN_PACKET_SIZE) :
    Except Panic (Option α) := do
  match ← fromDatagram datagramBuf filter cipher with
  | .ok (_, b) => return (fromBytes b.toList).toOption
  | .error _ => return none

/-- The packet starts with the message's frame. -/
def Framed (cipher : LinkCipher) (header : Header) (message : α) (datagram : Vector UInt8 MIN_PACKET_SIZE) : Prop :=
  ∃ rest, datagram.toList = ser (frameOf cipher header (ser message)) ++ rest

theorem frameLen_le {n : Nat} (hn : n ≤ MIN_PAYLOAD_SIZE) : frameLen n ≤ MIN_PACKET_SIZE := by
  have h32 : MIN_PAYLOAD_SIZE = 32 := rfl
  have h42 : MIN_PACKET_SIZE = 42 := rfl
  unfold frameLen MIC_SIZE
  rw [varintLen_of_lt (by omega)]
  omega

theorem processMessage_of_ok {cipher : LinkCipher} {filter : Header → Bool}
    {datagramBuf : Vector UInt8 MIN_PACKET_SIZE} {header : Header} {b : HVec UInt8 MIN_PACKET_SIZE}
    (h : fromDatagram datagramBuf filter cipher = .ok (.ok (header, b))) :
    processMessage (α := α) cipher filter datagramBuf = .ok (fromBytes b.toList).toOption := by
  simp only [processMessage, h, bind, Except.bind]
  rfl

theorem processMessage_of_error {cipher : LinkCipher} {filter : Header → Bool}
    {datagramBuf : Vector UInt8 MIN_PACKET_SIZE} {e : FromDatagramError}
    (h : fromDatagram datagramBuf filter cipher = .ok (.error e)) :
    processMessage (α := α) cipher filter datagramBuf = .ok none := by
  simp only [processMessage, h, bind, Except.bind]
  rfl

theorem processMessage_total (cipher : LinkCipher) (filter : Header → Bool)
    (datagramBuf : Vector UInt8 MIN_PACKET_SIZE) :
    ∃ message, processMessage (α := α) cipher filter datagramBuf = .ok message := by
  obtain ⟨answer, hanswer⟩ : ∃ answer, fromDatagram datagramBuf filter cipher = .ok answer :=
    ⟨_, fromDatagram_eq datagramBuf filter cipher⟩
  cases answer with
  | ok read => exact ⟨_, processMessage_of_ok hanswer⟩
  | error e => exact ⟨_, processMessage_of_error hanswer⟩

/-- **A message that does not fit a payload makes its sender panic.** -/
theorem createMessage_panics {message : α} (hfit : MIN_PAYLOAD_SIZE < (ser message).length) (cipher : LinkCipher)
    (header : Header) (datagramBuf : Vector UInt8 MIN_PACKET_SIZE) :
    createMessage cipher header message datagramBuf = .error .unwrap := by
  unfold createMessage
  rw [toVec, HVec.fromSlice_of_gt hfit]
  rfl

section Trip

variable {cipher : LinkCipher} (hc : cipher.Lawful) {message : α} (hfit : (ser message).length ≤ MIN_PAYLOAD_SIZE)
include hc hfit

/-- **A message that fits a payload is sent**, in a packet that starts with its frame. -/
theorem createMessage_ok (header : Header) (datagramBuf : Vector UInt8 MIN_PACKET_SIZE) :
    ∃ out, createMessage cipher header message datagramBuf = .ok out ∧ Framed cipher header message out := by
  obtain ⟨out, hout, houtl⟩ := toDatagram_of_le hc (by decide) header (ser message) datagramBuf (frameLen_le hfit)
  refine ⟨out, ?_, _, houtl⟩
  unfold createMessage
  rw [toVec_of_le hfit]
  exact hout

variable {header : Header} {datagram : Vector UInt8 MIN_PACKET_SIZE} (h : Framed cipher header message datagram)
include h

theorem Framed.fromDatagram (filter : Header → Bool) (other : LinkCipher) :
    FlipFlop.fromDatagram datagram filter other
      = .ok (openFrame MIN_PACKET_SIZE (frameOf cipher header (ser message)) filter other) := by
  obtain ⟨rest, hframe⟩ := h
  have h32 : MIN_PAYLOAD_SIZE = 32 := rfl
  have hlen : (frameOf cipher header (ser message)).encryptedPayload.length < 2 ^ usizeBits := by
    rw [frameOf, length_sealedPayload hc]
    unfold MIC_SIZE usizeBits
    omega
  exact fromDatagram_of_frame hframe hlen filter other

variable (hv : header.version = 0) (hp : header.serverPort ≤ 7) {filter : Header → Bool}
include hv hp

/-- **A packet opens under the cipher it was sealed with**, to the message it carries. -/
theorem Framed.processMessage (hf : filter header = true) (hde : fromBytes (ser message) = .ok message) :
    Discovery.processMessage cipher filter datagram = .ok (some message) := by
  have hroom : (ser message).length ≤ MIN_PACKET_SIZE := Nat.le_trans hfit (by decide)
  have hopen := h.fromDatagram hc hfit filter cipher
  rw [openFrame_frameOf hc hv hp hroom hf] at hopen
  rw [processMessage_of_ok hopen, hde]
  rfl

/-- **It opens under no other.** -/
theorem Framed.processMessage_none {β : Type} [Serde β] (hf : filter header = true) {other : LinkCipher}
    (hsep : ∀ nonce ad plain, other.decrypt nonce ad (cipher.encrypt nonce ad plain) = none) :
    Discovery.processMessage (α := β) other filter datagram = .ok none := by
  have hopen := h.fromDatagram hc hfit filter other
  rw [openFrame_frameOf_sealed hc hv hp (ser message) hf hsep] at hopen
  exact processMessage_of_error hopen

/-- **A filter that does not want its header turns it away**, under any cipher. -/
theorem Framed.filtered (hf : filter header = false) (other : LinkCipher) :
    FlipFlop.fromDatagram datagram filter other = .ok (.error .filterDoesNotMatch) := by
  rw [h.fromDatagram hc hfit filter other, openFrame_frameOf_filtered hv hp (ser message) hf other]

end Trip

end Discovery
end FlipFlop
