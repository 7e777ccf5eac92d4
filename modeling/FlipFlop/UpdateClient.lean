import FlipFlop.Message
import FlipFlop.UpdateMessage
/-!
# UpdateClient — the client of a software update (`data/examples/update/main.rs`, `mod client`)

`client::task` sends each server a prepare message under the server's key and then the image in pieces under the update
key; it is modelled as the packets it sends, each with the pause after it.  The image is a parameter here, and so is
the family of ciphers `AesCcm::new` makes of keys.
-/
namespace FlipFlop
namespace SoftwareUpdate

open Rust Postcard
open Discovery (MIN_PACKET_SIZE MIN_PAYLOAD_SIZE)

def MY_APP_PORT : UInt8 := 2

/-- In milliseconds, as the next. -/
def SERVER_REQUEST_RECEIVE_TIME : Nat := 12
def UPDATE_PROCESSING_TIME : Nat := 100

/-- The number of bytes that gets sent with each update. -/
def UPDATE_BYTES_SIZE : Nat := MIN_PAYLOAD_SIZE - UPDATE_BYTES_OVERHEAD

/-- The number of bytes sent before we must pause and give the servers more time to process. -/
def UPDATE_BYTES_PROCESSING_THRESHOLD : Nat := 4096

abbrev Packet := Vector UInt8 MIN_PACKET_SIZE

structure Sent where
  datagram : Packet
  delay : Nat
  deriving Repr, DecidableEq

def requestHeader (frameCounter : UInt16) : Header :=
  { version := 0, source := .client, serverAddress := 0, serverPort := 1, frameCounter }

/-- What the two requests have in common: the message, in a packet from the client to port 1 of every server. -/
def createRequest {α : Type} [Serde α] (cipher : LinkCipher) (message : α) (frameCounter : UInt16)
    (datagramBuf : Packet) : Except Panic Packet :=
  Discovery.createMessage cipher (requestHeader frameCounter) message datagramBuf

def createPrepareUpdateRequest (networkCipher : LinkCipher) (prepareForUpdate : PrepareForUpdate)
    (frameCounter : UInt16) (datagramBuf : Packet) : Except Panic Packet :=
  createRequest networkCipher prepareForUpdate frameCounter datagramBuf

def createUpdateRequest {N : Nat} (updateCipher : LinkCipher) (update : Update N) (frameCounter : UInt16)
    (datagramBuf : Packet) : Except Panic Packet :=
  createRequest updateCipher update frameCounter datagramBuf

section Client

variable (aesCcm : UpdateKey → LinkCipher)

def prepareForUpdate (updateKey : UpdateKey) (updateLen : Nat) : PrepareForUpdate :=
  { version := { major := 1, minor := 2, patch := 3, pre := none }
    serverPorts := 1 <<< MY_APP_PORT
    updateKey
    updateByteLen := UInt32.ofNat updateLen
    signed := false }

/-- The packets, and the frame counter and the buffer they leave. -/
def prepareServersForUpdate (updateKey : UpdateKey) (updateLen : Nat) : List (UInt8 × UpdateKey) → UInt16 → Packet →
    Except Panic (List Sent × UInt16 × Packet)
  | [], frameCounter, datagramBuf => .ok ([], frameCounter, datagramBuf)
  | (_, serverNetworkKey) :: servers, frameCounter, datagramBuf => do
    let datagramBuf ← createPrepareUpdateRequest (aesCcm serverNetworkKey) (prepareForUpdate updateKey updateLen)
      frameCounter datagramBuf
    let (sent, rest) ← prepareServersForUpdate updateKey updateLen servers (frameCounter + 1) datagramBuf
    return ({ datagram := datagramBuf, delay := SERVER_REQUEST_RECEIVE_TIME } :: sent, rest)

/-- The loop of `update_servers`. -/
def updateLoop (updateKey : UpdateKey) (image : List UInt8) (updateLen : Nat) :
    Nat → Nat → Nat → UInt16 → Packet → Except Panic (List Sent)
  | 0, _, _, _, _ => .error .fuel
  | fuel + 1, updateByteOffset, nextThresholdByteOffset, frameCounter, datagramBuf =>
    if updateByteOffset < image.length then do
      let toUpdateByteOffset := min (updateByteOffset + UPDATE_BYTES_SIZE) nextThresholdByteOffset
      let updateBytes ← slice image updateByteOffset toUpdateByteOffset
      let bytes ← unwrap (HVec.fromSlice updateBytes)
      let update : Update UPDATE_BYTES_SIZE := { byteOffset := UInt32.ofNat updateByteOffset, bytes }
      let datagramBuf ← createUpdateRequest (aesCcm updateKey) update frameCounter datagramBuf
      let (nextThresholdByteOffset, delay) :=
        if toUpdateByteOffset = nextThresholdByteOffset then
          (min (nextThresholdByteOffset + UPDATE_BYTES_PROCESSING_THRESHOLD) updateLen, UPDATE_PROCESSING_TIME)
        else (nextThresholdByteOffset, SERVER_REQUEST_RECEIVE_TIME)
      let sent ← updateLoop updateKey image updateLen fuel toUpdateByteOffset nextThresholdByteOffset
        (frameCounter + 1) datagramBuf
      return { datagram := datagramBuf, delay } :: sent
    else return []

-- every round but the last sends a byte at least, so that `image.length + 1` rounds are enough
def updateServers (updateKey : UpdateKey) (image : List UInt8) (updateLen : Nat) (frameCounter : UInt16)
    (datagramBuf : Packet) : Except Panic (List Sent) :=
  updateLoop aesCcm updateKey image updateLen (image.length + 1) 0 (min UPDATE_BYTES_PROCESSING_THRESHOLD updateLen)
    frameCounter datagramBuf

/-- `client::task`: the prepare packets and the update packets. -/
def clientTask (servers : List (UInt8 × UpdateKey)) (updateKey : UpdateKey) (image : List UInt8) :
    Except Panic (List Sent × List Sent) := do
  let updateLen := image.length
  let (prepared, frameCounter, datagramBuf) ←
    prepareServersForUpdate aesCcm updateKey updateLen servers 0 (Vector.replicate MIN_PACKET_SIZE 0)
  let updates ← updateServers aesCcm updateKey image updateLen frameCounter datagramBuf
  return (prepared, updates)

end Client

/-! ## What a packet carries -/

/-- The frame the packet starts with, by its counter. -/
def Frames {α : Type} [Serde α] (cipher : LinkCipher) (frameCounter : UInt16) (message : α) (datagram : Packet) : Prop :=
  Discovery.Framed cipher (requestHeader frameCounter) message datagram

/-- The packet starts with a frame that holds the message, sealed by the cipher. -/
structure Carries {α : Type} [Serde α] (cipher : LinkCipher) (message : α) (datagram : Packet) : Prop where
  fits : (ser message).length ≤ MIN_PAYLOAD_SIZE
  frame : ∃ frameCounter, Frames cipher frameCounter message datagram

theorem createRequest_ok {α : Type} [Serde α] {cipher : LinkCipher} (hc : cipher.Lawful) {message : α}
    (hfit : (ser message).length ≤ MIN_PAYLOAD_SIZE) (frameCounter : UInt16) (datagramBuf : Packet) :
    ∃ out, createRequest cipher message frameCounter datagramBuf = .ok out ∧ Frames cipher frameCounter message out :=
  Discovery.createMessage_ok hc hfit (requestHeader frameCounter) datagramBuf

theorem createRequest_panics {α : Type} [Serde α] {message : α} (hfit : MIN_PAYLOAD_SIZE < (ser message).length)
    (cipher : LinkCipher) (frameCounter : UInt16) (datagramBuf : Packet) :
    createRequest cipher message frameCounter datagramBuf = .error .unwrap :=
  Discovery.createMessage_panics hfit cipher (requestHeader frameCounter) datagramBuf

/-- **When an update of a packet's worth of bytes at most fits a payload**: its offset is below `2 ^ 28`, or it has a
byte to spare. -/
theorem length_ser_update_fits_iff {N : Nat} (update : Update N) (hlen : update.bytes.toList.length ≤ UPDATE_BYTES_SIZE) :
    (ser update).length ≤ MIN_PAYLOAD_SIZE ↔
      update.byteOffset.toNat < 2 ^ 28 ∨ update.bytes.toList.length < UPDATE_BYTES_SIZE := by
  have h27 : UPDATE_BYTES_SIZE = 27 := rfl
  have h32 : MIN_PAYLOAD_SIZE = 32 := rfl
  have hmost := length_ser_uint32_le update.byteOffset
  rw [length_ser_uint32] at hmost
  have hfour := length_ser_update_le_iff update (by omega)
  rw [← hfour, length_ser_update update (by omega)]
  unfold UPDATE_BYTES_OVERHEAD
  omega

/-! ## The pieces of an image -/

/-- The update holds the bytes of the image that stand at its offset. -/
structure ChunkOf (image : List UInt8) (update : Update UPDATE_BYTES_SIZE) : Prop where
  inside : update.byteOffset.toNat + update.bytes.toList.length ≤ image.length
  bytes : update.bytes.toList = (image.drop update.byteOffset.toNat).take update.bytes.toList.length

/-- The threshold that is next at an offset: the multiple of `UPDATE_BYTES_PROCESSING_THRESHOLD` above it, or the end. -/
def thresholdAt (updateLen offset : Nat) : Nat :=
  min ((offset / UPDATE_BYTES_PROCESSING_THRESHOLD + 1) * UPDATE_BYTES_PROCESSING_THRESHOLD) updateLen

/-- Where the piece that starts at an offset ends. -/
def pieceEnd (updateLen offset : Nat) : Nat := min (offset + UPDATE_BYTES_SIZE) (thresholdAt updateLen offset)

/-- The pause after the piece that starts at an offset. -/
def pieceDelay (updateLen offset : Nat) : Nat :=
  if pieceEnd updateLen offset = thresholdAt updateLen offset then UPDATE_PROCESSING_TIME else SERVER_REQUEST_RECEIVE_TIME

theorem thresholdAt_zero (updateLen : Nat) : thresholdAt updateLen 0 = min UPDATE_BYTES_PROCESSING_THRESHOLD updateLen := rfl

/-- **A piece has a byte at least and a packet's worth at most.** -/
theorem pieceEnd_bounds {updateLen offset : Nat} (h : offset < updateLen) :
    offset < pieceEnd updateLen offset ∧ pieceEnd updateLen offset ≤ updateLen ∧
      pieceEnd updateLen offset ≤ offset + UPDATE_BYTES_SIZE := by
  have h27 : UPDATE_BYTES_SIZE = 27 := rfl
  unfold pieceEnd thresholdAt UPDATE_BYTES_PROCESSING_THRESHOLD
  omega

/-- The threshold the loop keeps is the one that is next at its offset. -/
theorem thresholdAt_pieceEnd {updateLen offset : Nat} (h : pieceEnd updateLen offset < updateLen) :
    (if pieceEnd updateLen offset = thresholdAt updateLen offset then
      min (thresholdAt updateLen offset + UPDATE_BYTES_PROCESSING_THRESHOLD) updateLen
    else thresholdAt updateLen offset) = thresholdAt updateLen (pieceEnd updateLen offset) := by
  have h27 : UPDATE_BYTES_SIZE = 27 := rfl
  unfold pieceEnd thresholdAt UPDATE_BYTES_PROCESSING_THRESHOLD at *
  split <;> omega

/-- The piece of the image at an offset. -/
structure PieceAt (image : List UInt8) (offset : Nat) (update : Update UPDATE_BYTES_SIZE) : Prop where
  starts : update.byteOffset.toNat = offset
  bytes : update.bytes.toList = (image.drop offset).take (pieceEnd image.length offset - offset)

theorem PieceAt.length {image : List UInt8} {offset : Nat} {update : Update UPDATE_BYTES_SIZE}
    (h : PieceAt image offset update) (hoff : offset < image.length) :
    update.bytes.toList.length = pieceEnd image.length offset - offset := by
  have hend := pieceEnd_bounds hoff
  rw [h.bytes, List.length_take, List.length_drop]
  omega

theorem PieceAt.chunkOf {image : List UInt8} {offset : Nat} {update : Update UPDATE_BYTES_SIZE}
    (h : PieceAt image offset update) (hoff : offset < image.length) : ChunkOf image update := by
  have hend := pieceEnd_bounds hoff
  have hlen := h.length hoff
  refine ⟨?_, ?_⟩
  · rw [h.starts, hlen]
    omega
  · rw [h.starts, hlen]
    exact h.bytes

/-- The encoding of a piece outgrows the payload only at offsets of five bytes, and only when the piece is full. -/
theorem PieceAt.length_ser {image : List UInt8} {offset : Nat} {update : Update UPDATE_BYTES_SIZE}
    (h : PieceAt image offset update) (hoff : offset < image.length) :
    (ser update).length ≤ MIN_PAYLOAD_SIZE ↔
      offset < 2 ^ 28 ∨ pieceEnd image.length offset - offset < UPDATE_BYTES_SIZE := by
  have h27 : UPDATE_BYTES_SIZE = 27 := rfl
  have hend := pieceEnd_bounds hoff
  rw [length_ser_update_fits_iff update (by rw [h.length hoff]; omega), h.starts, h.length hoff]

section Loop

variable (aesCcm : UpdateKey → LinkCipher)

/-- **One round of the loop**, from any offset below the end: the piece at the offset goes into a packet, and the loop
goes on behind it. -/
theorem updateLoop_step (updateKey : UpdateKey) {image : List UInt8} (himage : image.length < 2 ^ 32) {offset : Nat}
    (hoff : offset < image.length) : ∃ update, PieceAt image offset update ∧
    ∀ (fuel : Nat) (frameCounter : UInt16) (datagramBuf : Packet),
      updateLoop aesCcm updateKey image image.length (fuel + 1) offset (thresholdAt image.length offset) frameCounter
          datagramBuf
        = (createUpdateRequest (aesCcm updateKey) update frameCounter datagramBuf).bind (fun out =>
            (updateLoop aesCcm updateKey image image.length fuel (pieceEnd image.length offset)
              (if pieceEnd image.length offset = thresholdAt image.length offset then
                min (thresholdAt image.length offset + UPDATE_BYTES_PROCESSING_THRESHOLD) image.length
              else thresholdAt image.length offset) (frameCounter + 1) out).bind (fun sent =>
            .ok ({ datagram := out, delay := pieceDelay image.length offset } :: sent))) := by
  obtain ⟨hlt, hle, hsize⟩ := pieceEnd_bounds hoff
  have hlen : ((image.drop offset).take (pieceEnd image.length offset - offset)).length ≤ UPDATE_BYTES_SIZE := by
    rw [List.length_take]
    omega
  have hslice : slice image offset (pieceEnd image.length offset)
      = .ok ((image.drop offset).take (pieceEnd image.length offset - offset)) := if_pos ⟨Nat.le_of_lt hlt, hle⟩
  have hbytes : unwrap (HVec.fromSlice ((image.drop offset).take (pieceEnd image.length offset - offset)))
      = .ok (⟨_, hlen⟩ : HVec UInt8 UPDATE_BYTES_SIZE) := by
    rw [HVec.fromSlice_of_le hlen]
    rfl
  refine ⟨{ byteOffset := UInt32.ofNat offset, bytes := ⟨_, hlen⟩ }, ⟨?_, rfl⟩, ?_⟩
  · show (UInt32.ofNat offset).toNat = offset
    rw [UInt32.toNat_ofNat']
    omega
  · intro fuel frameCounter datagramBuf
    have hto : min (offset + UPDATE_BYTES_SIZE) (thresholdAt image.length offset) = pieceEnd image.length offset := rfl
    rw [updateLoop, if_pos hoff, hto]
    simp only [hslice, hbytes, bind, Except.bind]
    by_cases hmet : pieceEnd image.length offset = thresholdAt image.length offset
    · simp only [pieceDelay, hmet, if_true]
      rfl
    · simp only [pieceDelay, if_neg hmet]
      rfl

theorem updateLoop_end (updateKey : UpdateKey) {image : List UInt8} {offset : Nat} (hoff : image.length ≤ offset)
    (fuel threshold : Nat) (frameCounter : UInt16) (datagramBuf : Packet) :
    updateLoop aesCcm updateKey image image.length (fuel + 1) offset threshold frameCounter datagramBuf = .ok [] := by
  rw [updateLoop, if_neg (Nat.not_lt.2 hoff)]
  rfl

end Loop

/-- The packets carry the pieces of the image from the offset on, one frame after the other, each with its pause. -/
inductive Pieces (cipher : LinkCipher) (image : List UInt8) :
    Nat → UInt16 → List Sent → List (Update UPDATE_BYTES_SIZE) → Prop
  | done {frameCounter : UInt16} : Pieces cipher image image.length frameCounter [] []
  | piece {offset : Nat} {frameCounter : UInt16} {datagram : Packet} {update : Update UPDATE_BYTES_SIZE}
      {sent : List Sent} {updates : List (Update UPDATE_BYTES_SIZE)} (hoff : offset < image.length)
      (hpiece : PieceAt image offset update) (hfit : (ser update).length ≤ MIN_PAYLOAD_SIZE)
      (hframe : Frames cipher frameCounter update datagram)
      (hrest : Pieces cipher image (pieceEnd image.length offset) (frameCounter + 1) sent updates) :
      Pieces cipher image offset frameCounter ({ datagram, delay := pieceDelay image.length offset } :: sent)
        (update :: updates)

theorem Pieces.carries {cipher : LinkCipher} {image : List UInt8} {offset : Nat} {frameCounter : UInt16}
    {sent : List Sent} {updates : List (Update UPDATE_BYTES_SIZE)}
    (h : Pieces cipher image offset frameCounter sent updates) :
    ∀ x ∈ sent, ∃ update, ChunkOf image update ∧ Carries cipher update x.datagram := by
  induction h with
  | done => exact fun x hx => absurd hx List.not_mem_nil
  | piece hoff hpiece hfit hframe hrest ih =>
    intro x hx
    rcases List.mem_cons.1 hx with rfl | hx
    · exact ⟨_, hpiece.chunkOf hoff, hfit, _, hframe⟩
    · exact ih x hx

section Sent

variable {aesCcm : UpdateKey → LinkCipher} (hlawful : ∀ key, (aesCcm key).Lawful)
include hlawful

theorem prepareServersForUpdate_ok (updateKey : UpdateKey) (updateLen : Nat) :
    ∀ (servers : List (UInt8 × UpdateKey)) (frameCounter : UInt16) (datagramBuf : Packet),
      ∃ sent rest, prepareServersForUpdate aesCcm updateKey updateLen servers frameCounter datagramBuf
          = .ok (sent, rest) ∧
        ∀ x ∈ sent, ∃ server ∈ servers,
          Carries (aesCcm server.2) (prepareForUpdate updateKey updateLen) x.datagram
  | [], frameCounter, datagramBuf => ⟨[], _, rfl, fun x hx => absurd hx List.not_mem_nil⟩
  | server :: servers, frameCounter, datagramBuf => by
    have hfit : (ser (prepareForUpdate updateKey updateLen)).length ≤ MIN_PAYLOAD_SIZE :=
      Nat.le_trans (length_ser_prepare_le _) (by decide)
    obtain ⟨out, hout, hframe⟩ := createRequest_ok (hlawful server.2) hfit frameCounter datagramBuf
    obtain ⟨sent, rest, hrec, hsent⟩ := prepareServersForUpdate_ok updateKey updateLen servers (frameCounter + 1) out
    refine ⟨{ datagram := out, delay := SERVER_REQUEST_RECEIVE_TIME } :: sent, rest, ?_, ?_⟩
    · rw [prepareServersForUpdate, createPrepareUpdateRequest, hout]
      simp only [bind, Except.bind, hrec]
      rfl
    · intro x hx
      rcases List.mem_cons.1 hx with rfl | hx
      · exact ⟨server, List.mem_cons_self, hfit, _, hframe⟩
      · obtain ⟨other, hother, hx⟩ := hsent x hx
        exact ⟨other, List.mem_cons_of_mem server hother, hx⟩

/-- **From any offset the loop sends the rest of the image, piece by piece**, as long as no full piece stands at an
offset of five bytes. -/
theorem updateLoop_pieces (updateKey : UpdateKey) {image : List UInt8} (himage : image.length < 2 ^ 28 + UPDATE_BYTES_SIZE) :
    ∀ (fuel offset threshold : Nat) (frameCounter : UInt16) (datagramBuf : Packet),
      offset ≤ image.length → image.length < offset + fuel →
      (offset < image.length → threshold = thresholdAt image.length offset) →
      ∃ sent updates,
        updateLoop aesCcm updateKey image image.length fuel offset threshold frameCounter datagramBuf = .ok sent ∧
        Pieces (aesCcm updateKey) image offset frameCounter sent updates
  | 0, _, _, _, _, hle, hfuel, _ => absurd hfuel (by omega)
  | fuel + 1, offset, threshold, frameCounter, datagramBuf, hle, hfuel, hthr => by
    have h27 : UPDATE_BYTES_SIZE = 27 := rfl
    by_cases hoff : offset < image.length
    · obtain ⟨hlt, hend, -⟩ := pieceEnd_bounds hoff
      obtain ⟨update, hpiece, hstep⟩ := updateLoop_step aesCcm updateKey (show image.length < 2 ^ 32 by omega) hoff
      have hfit : (ser update).length ≤ MIN_PAYLOAD_SIZE := (hpiece.length_ser hoff).2 (by omega)
      obtain ⟨out, hout, hframe⟩ := createRequest_ok (hlawful updateKey) hfit frameCounter datagramBuf
      obtain ⟨sent, updates, hrec, hpieces⟩ := updateLoop_pieces updateKey himage fuel (pieceEnd image.length offset)
        _ (frameCounter + 1) out hend (by omega) thresholdAt_pieceEnd
      refine ⟨_, _, ?_, .piece hoff hpiece hfit hframe hpieces⟩
      rw [hthr hoff, hstep, createUpdateRequest, hout]
      simp only [Except.bind, hrec]
    · obtain rfl : offset = image.length := by omega
      exact ⟨[], [], updateLoop_end aesCcm updateKey (Nat.le_refl _) fuel threshold frameCounter datagramBuf, .done⟩

theorem updateServers_pieces (updateKey : UpdateKey) {image : List UInt8}
    (himage : image.length < 2 ^ 28 + UPDATE_BYTES_SIZE) (frameCounter : UInt16) (datagramBuf : Packet) :
    ∃ sent updates, updateServers aesCcm updateKey image image.length frameCounter datagramBuf = .ok sent ∧
      Pieces (aesCcm updateKey) image 0 frameCounter sent updates :=
  updateLoop_pieces hlawful updateKey himage (image.length + 1) 0 _ frameCounter datagramBuf (Nat.zero_le _) (by omega)
    (fun _ => (thresholdAt_zero image.length).symm)

/-- **The client sends a whole update**: every server's prepare message under that server's key, and pieces of the
image under the update key. -/
theorem clientTask_ok (servers : List (UInt8 × UpdateKey)) (updateKey : UpdateKey) (image : List UInt8)
    (himage : image.length < 2 ^ 28) :
    ∃ prepared updates, clientTask aesCcm servers updateKey image = .ok (prepared, updates) ∧
      (∀ x ∈ prepared, ∃ server ∈ servers,
        Carries (aesCcm server.2) (prepareForUpdate updateKey image.length) x.datagram) ∧
      ∀ x ∈ updates, ∃ update, ChunkOf image update ∧ Carries (aesCcm updateKey) update x.datagram := by
  obtain ⟨prepared, ⟨frameCounter, datagramBuf⟩, hprepare, hprepared⟩ :=
    prepareServersForUpdate_ok hlawful updateKey image.length servers 0 (Vector.replicate MIN_PACKET_SIZE 0)
  have hshort : image.length < 2 ^ 28 + UPDATE_BYTES_SIZE := Nat.lt_add_right _ himage
  obtain ⟨sent, updates, hupdate, hpieces⟩ :=
    updateServers_pieces hlawful updateKey hshort frameCounter datagramBuf
  refine ⟨prepared, sent, ?_, hprepared, hpieces.carries⟩
  simp only [clientTask, hprepare, bind, Except.bind, hupdate]
  rfl

end Sent

end SoftwareUpdate
end FlipFlop
