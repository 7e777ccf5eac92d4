import FlipFlop.Nonce
import FlipFlop.UpdateTransfer
/-!
# UpdateNonces — how many packets an update takes, and their nonces (`data/examples/update/main.rs`)

One counter numbers all the packets of `client::task`, so that no two of the first 65536 share a nonce
(`client_nonces_distinct`), and the number of packets and the pauses after them follow from the length of the image alone
(`update_schedule`).  The counter has sixteen bits, though, so that an image of 1.8 megabytes has nonces used twice under
its one key (`update_nonces_repeat`); and it starts from 0 with every run while a server's network key stays, so that the
prepare messages of two updates are sealed under the same nonces (`prepare_nonces_repeat`).
-/
namespace FlipFlop
namespace SoftwareUpdate

open Rust Postcard
open Discovery (MIN_PACKET_SIZE MIN_PAYLOAD_SIZE)

/-! ## The schedule of an update -/

/-- The pieces that start below an offset. -/
def piecesBelow (offset : Nat) : Nat :=
  offset / UPDATE_BYTES_PROCESSING_THRESHOLD * 152
    + (offset % UPDATE_BYTES_PROCESSING_THRESHOLD + 26) / UPDATE_BYTES_SIZE

/-- The longer pauses that an image takes. -/
def longPauses (updateLen : Nat) : Nat := (updateLen + 4095) / UPDATE_BYTES_PROCESSING_THRESHOLD

/-- An offset at which a full piece may start. -/
def Aligned (offset : Nat) : Prop := offset % UPDATE_BYTES_PROCESSING_THRESHOLD % UPDATE_BYTES_SIZE = 0

/-- **Where the piece at an aligned offset ends**: with the image, at the threshold, or a packet's worth further on. -/
theorem Aligned.pieceEnd_cases {updateLen offset : Nat} (h : Aligned offset) (hoff : offset < updateLen) :
    ∃ q k, k < 152 ∧ offset = 4096 * q + 27 * k ∧
      (pieceEnd updateLen offset = updateLen ∧ updateLen ≤ offset + 27 ∧ updateLen ≤ 4096 * (q + 1) ∧
          thresholdAt updateLen offset = updateLen ∨
        k = 151 ∧ pieceEnd updateLen offset = 4096 * (q + 1) ∧ 4096 * (q + 1) < updateLen ∧
          thresholdAt updateLen offset = 4096 * (q + 1) ∨
        k < 151 ∧ pieceEnd updateLen offset = 4096 * q + 27 * (k + 1) ∧ 4096 * q + 27 * (k + 1) < updateLen ∧
          4096 * q + 27 * (k + 1) < thresholdAt updateLen offset) := by
  have h : offset % 4096 % 27 = 0 := h
  have hthreshold : thresholdAt updateLen offset = min ((offset / 4096 + 1) * 4096) updateLen := rfl
  have hend : pieceEnd updateLen offset = min (offset + 27) (thresholdAt updateLen offset) := rfl
  refine ⟨offset / 4096, offset % 4096 / 27, by omega, by omega, ?_⟩
  omega

theorem piecesBelow_eq (q : Nat) {r : Nat} (hr : r < 4096) : piecesBelow (4096 * q + r) = q * 152 + (r + 26) / 27 := by
  have h27 : UPDATE_BYTES_SIZE = 27 := rfl
  have hdiv : (4096 * q + r) / 4096 = q := by omega
  have hmod : (4096 * q + r) % 4096 = r := by omega
  unfold piecesBelow UPDATE_BYTES_PROCESSING_THRESHOLD
  rw [h27, hdiv, hmod]

theorem piecesBelow_block (q : Nat) : piecesBelow (4096 * q) = q * 152 := piecesBelow_eq q (r := 0) (by decide)

/-- How long the client pauses after the pieces below an offset, apart from the twelve milliseconds each. -/
def pausedBelow (updateLen offset : Nat) : Nat :=
  88 * if offset = updateLen then longPauses updateLen else offset / UPDATE_BYTES_PROCESSING_THRESHOLD

/-- What one piece adds to the packets and to the pauses. -/
theorem Aligned.pieceEnd_adds {updateLen offset : Nat} (h : Aligned offset) (hoff : offset < updateLen) :
    (pieceEnd updateLen offset = updateLen ∨ Aligned (pieceEnd updateLen offset)) ∧
    piecesBelow (pieceEnd updateLen offset) = piecesBelow offset + 1 ∧
    pausedBelow updateLen (pieceEnd updateLen offset) + 12
      = pausedBelow updateLen offset + pieceDelay updateLen offset := by
  obtain ⟨q, k, hk, rfl, hcases⟩ := h.pieceEnd_cases hoff
  have hbelow : piecesBelow (4096 * q + 27 * k) = q * 152 + (27 * k + 26) / 27 := piecesBelow_eq q (by omega)
  have hdiv : (4096 * q + 27 * k) / 4096 = q := by omega
  have h4096 : UPDATE_BYTES_PROCESSING_THRESHOLD = 4096 := rfl
  have h100 : UPDATE_PROCESSING_TIME = 100 := rfl
  have h12 : SERVER_REQUEST_RECEIVE_TIME = 12 := rfl
  unfold pieceDelay pausedBelow
  rw [h4096, h100, h12, hbelow, if_neg (Nat.ne_of_lt hoff), hdiv]
  rcases hcases with ⟨hend, hle, hblock, hlast⟩ | ⟨rfl, hend, hlt, hlast⟩ | ⟨hmore, hend, hlt, hnext⟩
  · -- the last piece of the image
    rw [hend, hlast, if_pos rfl, if_pos rfl]
    refine ⟨.inl rfl, ?_, ?_⟩
    · by_cases hfull : updateLen = 4096 * (q + 1)
      · rw [hfull, piecesBelow_block]
        omega
      · obtain ⟨r, rfl⟩ : ∃ r, updateLen = 4096 * q + r := ⟨updateLen - 4096 * q, by omega⟩
        rw [piecesBelow_eq q (by omega)]
        omega
    · unfold longPauses
      rw [h4096]
      omega
  · -- the last piece before a threshold
    rw [hend, hlast, if_pos rfl, if_neg (by omega)]
    refine ⟨.inr ?_, ?_, by omega⟩
    · show 4096 * (q + 1) % 4096 % 27 = 0
      omega
    · rw [piecesBelow_block]
      omega
  · -- a full piece with more to come
    rw [hend, if_neg (by omega), if_neg (by omega)]
    refine ⟨.inr ?_, ?_, by omega⟩
    · have hmod : (4096 * q + 27 * (k + 1)) % 4096 = 27 * (k + 1) := by omega
      show (4096 * q + 27 * (k + 1)) % 4096 % 27 = 0
      rw [hmod, Nat.mul_mod_right]
    · rw [piecesBelow_eq q (by omega)]
      omega

theorem Pieces.schedule {cipher : LinkCipher} {image : List UInt8} {offset : Nat} {frameCounter : UInt16}
    {sent : List Sent} {updates : List (Update UPDATE_BYTES_SIZE)}
    (h : Pieces cipher image offset frameCounter sent updates) (hoffset : offset = image.length ∨ Aligned offset) :
    sent.length + piecesBelow offset = piecesBelow image.length ∧
    (sent.map Sent.delay).sum + pausedBelow image.length offset
      = 12 * sent.length + pausedBelow image.length image.length := by
  induction h with
  | done =>
    simp only [List.length_nil, List.map_nil, List.sum_nil]
    omega
  | @piece offset _ _ _ sent _ hoff _ _ _ _ ih =>
    obtain ⟨hnext, hpieces, hpaused⟩ := (hoffset.resolve_left (Nat.ne_of_lt hoff)).pieceEnd_adds hoff
    obtain ⟨hlen, hsum⟩ := ih hnext
    simp only [List.length_cons, List.map_cons, List.sum_cons]
    omega

/-- **How many packets an update takes, and the pauses after them**, for every image that can be sent: a packet for each
twenty-seven bytes of a block of 4096 and one for its rest, and a pause after each, the longer one after each block. -/
theorem update_schedule {aesCcm : UpdateKey → LinkCipher} (hlawful : ∀ key, (aesCcm key).Lawful) (updateKey : UpdateKey)
    {image : List UInt8} (himage : image.length < 2 ^ 28 + UPDATE_BYTES_SIZE) (frameCounter : UInt16)
    (datagramBuf : Packet) :
    ∃ sent, updateServers aesCcm updateKey image image.length frameCounter datagramBuf = .ok sent ∧
      sent.length = image.length / 4096 * 152 + (image.length % 4096 + 26) / 27 ∧
      (sent.map Sent.delay).sum = 12 * sent.length + 88 * ((image.length + 4095) / 4096) := by
  obtain ⟨sent, updates, hok, hpieces⟩ := updateServers_pieces hlawful updateKey himage frameCounter datagramBuf
  obtain ⟨hlen, hsum⟩ := hpieces.schedule (.inr rfl)
  have hzero : piecesBelow 0 = 0 := rfl
  have hall : piecesBelow image.length = image.length / 4096 * 152 + (image.length % 4096 + 26) / 27 := rfl
  have hpauses : pausedBelow image.length image.length = 88 * ((image.length + 4095) / 4096) := by
    rw [pausedBelow, if_pos rfl]
    rfl
  have hnone : pausedBelow image.length 0 = 0 := by
    unfold pausedBelow
    split
    · rename_i hempty
      rw [← hempty]
      rfl
    · rfl
  exact ⟨sent, hok, by omega, by omega⟩

/-- `UPDATE`, the image of the example. -/
def exampleImage : List UInt8 := List.replicate (100 * 1024) 0

theorem length_exampleImage : exampleImage.length = 102400 := List.length_replicate

/-- It takes 3800 packets, with 47.8 seconds of pauses. -/
theorem update_schedule_example :
    ∃ sent, updateServers (fun key => (AesCcm.new key).toCipher) (Vector.replicate 16 48) exampleImage
        exampleImage.length 0 (Vector.replicate MIN_PACKET_SIZE 0) = .ok sent ∧
      sent.length = 3800 ∧ (sent.map Sent.delay).sum = 47800 := by
  obtain ⟨sent, hok, hlen, hsum⟩ := update_schedule AesCcm.new_lawful (Vector.replicate 16 48)
    (show exampleImage.length < 2 ^ 28 + UPDATE_BYTES_SIZE by rw [length_exampleImage]; decide) 0
    (Vector.replicate MIN_PACKET_SIZE 0)
  rw [length_exampleImage] at hlen hsum
  exact ⟨sent, hok, hlen, by rw [hsum, hlen]⟩

/-! ## The nonces of a run -/

/-- The nonce a receiver opens the packet with, as `from_datagram` works it out. -/
def nonceOf (datagram : Packet) : Option (Vector UInt8 NONCE_SIZE) :=
  (fromBytes (α := DataFrame) datagram.toList).toOption.map
    (fun f => newNonce f.header (f.encryptedPayload.length - MIC_SIZE))

theorem nonceOf_framed {α : Type} [Serde α] {cipher : LinkCipher} (hc : cipher.Lawful) {header : Header} {message : α}
    {datagram : Packet} (hfit : (ser message).length ≤ MIN_PAYLOAD_SIZE)
    (h : Discovery.Framed cipher header message datagram) :
    nonceOf datagram = some (newNonce header.toPacked (ser message).length) := by
  obtain ⟨rest, hframe⟩ := h
  have h32 : MIN_PAYLOAD_SIZE = 32 := rfl
  have hlen : (frameOf cipher header (ser message)).encryptedPayload.length = (ser message).length + MIC_SIZE :=
    length_sealedPayload hc _ _
  have hread := fromBytes_dataFrame (f := frameOf cipher header (ser message)) (by
    rw [hlen]
    unfold MIC_SIZE usizeBits
    omega) rest
  unfold nonceOf
  rw [hframe, hread]
  show some (newNonce _ (_ - MIC_SIZE)) = _
  rw [hlen, Nat.add_sub_cancel]
  rfl

/-- The packets are numbered by their frame counters, from the one given. -/
def Numbered (frameCounter : UInt16) (sent : List Sent) : Prop :=
  ∀ k x, sent[k]? = some x →
    ∃ len, nonceOf x.datagram = some (newNonce (requestHeader (frameCounter + UInt16.ofNat k)).toPacked len)

theorem add_ofNat_zero (frameCounter : UInt16) : frameCounter + UInt16.ofNat 0 = frameCounter := UInt16.add_zero _

theorem add_ofNat_succ (frameCounter : UInt16) (k : Nat) :
    frameCounter + UInt16.ofNat (k + 1) = frameCounter + 1 + UInt16.ofNat k := by
  rw [UInt16.ofNat_add, UInt16.add_comm (UInt16.ofNat k), ← UInt16.add_assoc]
  rfl

theorem Pieces.numbered {cipher : LinkCipher} (hc : cipher.Lawful) {image : List UInt8} {offset : Nat}
    {frameCounter : UInt16} {sent : List Sent} {updates : List (Update UPDATE_BYTES_SIZE)}
    (h : Pieces cipher image offset frameCounter sent updates) : Numbered frameCounter sent := by
  induction h with
  | done =>
    intro k x hx
    cases hx
  | @piece _ frameCounter _ _ _ _ hoff hpiece hfit hframe _ ih =>
    intro k x hx
    cases k with
    | zero =>
      cases hx
      exact ⟨_, (nonceOf_framed hc hfit hframe).trans (by rw [add_ofNat_zero])⟩
    | succ k =>
      obtain ⟨len, hnonce⟩ := ih k x hx
      exact ⟨len, by rw [hnonce, add_ofNat_succ]⟩

/-- Two packets of a numbered list that are fewer than 65536 apart have different nonces. -/
theorem Numbered.nodup {frameCounter : UInt16} {sent : List Sent} (h : Numbered frameCounter sent)
    (hlen : sent.length ≤ 65536) : (sent.map (fun x => nonceOf x.datagram)).Nodup := by
  rw [List.nodup_iff_getElem?_ne_getElem?]
  intro i j hij hj heq
  rw [List.length_map] at hj
  have hi : i < sent.length := Nat.lt_trans hij hj
  obtain ⟨a, ha⟩ := h i sent[i] (List.getElem?_eq_getElem hi)
  obtain ⟨b, hb⟩ := h j sent[j] (List.getElem?_eq_getElem hj)
  simp only [List.getElem?_map, List.getElem?_eq_getElem hi, List.getElem?_eq_getElem hj, Option.map_some, ha, hb,
    Option.some.injEq] at heq
  obtain ⟨-, -, -, hcounter, -⟩ := (nonce_eq_iff _ _ _ _).1 heq
  have hdvd := dvd_sub_of_counter_eq hij hcounter
  omega

theorem Numbered.append {frameCounter : UInt16} {a b : List Sent} (ha : Numbered frameCounter a)
    (hb : Numbered (frameCounter + UInt16.ofNat a.length) b) : Numbered frameCounter (a ++ b) := by
  intro k x hx
  by_cases hk : k < a.length
  · exact ha k x (by rwa [List.getElem?_append_left hk] at hx)
  · rw [List.getElem?_append_right (Nat.le_of_not_lt hk)] at hx
    obtain ⟨len, hnonce⟩ := hb (k - a.length) x hx
    refine ⟨len, ?_⟩
    rw [hnonce, UInt16.add_assoc, ← UInt16.ofNat_add, Nat.add_sub_cancel' (Nat.le_of_not_lt hk)]

/-! ### The nonce of each piece -/

/-- Where the pieces of an image start, whatever its length. -/
def startOf (k : Nat) : Nat := k / 152 * UPDATE_BYTES_PROCESSING_THRESHOLD + k % 152 * UPDATE_BYTES_SIZE

/-- How many bytes the update message takes that carries the `k`-th piece of an image. -/
def payloadLenOf (updateLen k : Nat) : Nat :=
  varintLen (startOf k) + 1 + (pieceEnd updateLen (startOf k) - startOf k)

theorem Aligned.startOf_piecesBelow {offset : Nat} (h : Aligned offset) : startOf (piecesBelow offset) = offset := by
  have h : offset % 4096 % 27 = 0 := h
  obtain ⟨q, k, hk, rfl⟩ : ∃ q k, k < 152 ∧ offset = 4096 * q + 27 * k :=
    ⟨offset / 4096, offset % 4096 / 27, by omega, by omega⟩
  have hcount : (27 * k + 26) / 27 = k := by omega
  rw [piecesBelow_eq q (by omega), hcount]
  have hdiv : (q * 152 + k) / 152 = q := by omega
  have hmod : (q * 152 + k) % 152 = k := by omega
  unfold startOf
  rw [hdiv, hmod, Nat.mul_comm q, Nat.mul_comm k]
  rfl

/-- The first piece whose offset takes three bytes, and the one 65536 further on. -/
theorem payloadLenOf_again {updateLen : Nat} (h : 1782435 ≤ updateLen) :
    payloadLenOf updateLen 608 = payloadLenOf updateLen 66144 := by
  have hi : pieceEnd updateLen (startOf 608) = 16411 := by
    show min (16384 + 27) (min ((16384 / 4096 + 1) * 4096) updateLen) = 16411
    omega
  have hj : pieceEnd updateLen (startOf 66144) = 1782435 := by
    show min (1782408 + 27) (min ((1782408 / 4096 + 1) * 4096) updateLen) = 1782435
    omega
  have hthree : ∀ v, 128 ^ 2 ≤ v → v < 128 ^ 3 → varintLen v = 3 := by
    intro v hle hlt
    have hmost := varintLen_le (by decide) hlt
    have hmore : ¬ varintLen v ≤ 2 := fun h => absurd ((varintLen_le_iff (by decide)).1 h) (Nat.not_lt.2 hle)
    omega
  unfold payloadLenOf
  rw [hi, hj, hthree (startOf 608) (by decide) (by decide), hthree (startOf 66144) (by decide) (by decide)]
  rfl

/-- **The `k`-th piece after an offset**, and the nonce its packet is sealed under. -/
theorem Pieces.nonces {cipher : LinkCipher} (hc : cipher.Lawful) {image : List UInt8} {offset : Nat}
    {frameCounter : UInt16} {sent : List Sent} {updates : List (Update UPDATE_BYTES_SIZE)}
    (h : Pieces cipher image offset frameCounter sent updates) (hoffset : offset = image.length ∨ Aligned offset) :
    ∀ k x, sent[k]? = some x → payloadLenOf image.length (piecesBelow offset + k) ≤ MIN_PAYLOAD_SIZE ∧
      nonceOf x.datagram = some (newNonce (requestHeader (frameCounter + UInt16.ofNat k)).toPacked
        (payloadLenOf image.length (piecesBelow offset + k))) := by
  induction h with
  | done =>
    intro k x hx
    cases hx
  | @piece offset frameCounter _ update _ _ hoff hpiece hfit hframe _ ih =>
    have haligned := hoffset.resolve_left (Nat.ne_of_lt hoff)
    obtain ⟨hnext, hbelow, -⟩ := haligned.pieceEnd_adds hoff
    intro k x hx
    cases k with
    | zero =>
      cases hx
      have hlen : (ser update).length = payloadLenOf image.length (piecesBelow offset + 0) := by
        have hshort := hpiece.length hoff
        have hend := pieceEnd_bounds hoff
        have h27 : UPDATE_BYTES_SIZE = 27 := rfl
        rw [length_ser_update update (by omega), hpiece.starts, hshort, Nat.add_zero (piecesBelow offset), payloadLenOf,
          haligned.startOf_piecesBelow]
      rw [← hlen, add_ofNat_zero]
      exact ⟨hfit, nonceOf_framed hc hfit hframe⟩
    | succ k =>
      obtain ⟨hsize, hnonce⟩ := ih hnext k x hx
      have hindex : piecesBelow (pieceEnd image.length offset) + k = piecesBelow offset + (k + 1) := by
        rw [hbelow, Nat.add_assoc, Nat.add_comm 1]
      rw [← hindex, add_ofNat_succ]
      exact ⟨hsize, hnonce⟩

/-- **Which pieces of an image share a nonce.** -/
theorem Pieces.shared_iff {cipher : LinkCipher} (hc : cipher.Lawful) {image : List UInt8} {frameCounter : UInt16}
    {sent : List Sent} {updates : List (Update UPDATE_BYTES_SIZE)} (h : Pieces cipher image 0 frameCounter sent updates)
    {i j : Nat} {x y : Sent} (hij : i < j) (hx : sent[i]? = some x) (hy : sent[j]? = some y) :
    nonceOf x.datagram = nonceOf y.datagram ↔
      65536 ∣ j - i ∧ payloadLenOf image.length i = payloadLenOf image.length j := by
  obtain ⟨hi, hnonce⟩ := h.nonces hc (.inr rfl) i x hx
  obtain ⟨hj, hnonce'⟩ := h.nonces hc (.inr rfl) j y hy
  have hzero : piecesBelow 0 = 0 := rfl
  have h32 : MIN_PAYLOAD_SIZE = 32 := rfl
  rw [hzero, Nat.zero_add] at hi hj hnonce hnonce'
  rw [hnonce, hnonce', Option.some.injEq, nonce_eq_iff]
  constructor
  · rintro ⟨-, -, -, hcounter, hlen⟩
    exact ⟨dvd_sub_of_counter_eq hij hcounter, by omega⟩
  · rintro ⟨⟨m, hm⟩, hlen⟩
    have hcounter : UInt16.ofNat i = UInt16.ofNat j := by
      rw [← UInt16.toNat_inj, UInt16.toNat_ofNat', UInt16.toNat_ofNat']
      omega
    refine ⟨rfl, rfl, rfl, ?_, by rw [hlen]⟩
    show frameCounter + UInt16.ofNat i = frameCounter + UInt16.ofNat j
    rw [hcounter]

theorem length_ser_prepareForUpdate (updateKey : UpdateKey) {updateLen : Nat} (h : updateLen < 2 ^ 32) :
    (ser (prepareForUpdate updateKey updateLen)).length = 22 + varintLen updateLen := by
  have hkey : (ser updateKey).length = 16 := Vector.length_toList
  have hlen : (ser (UInt32.ofNat updateLen)).length = varintLen updateLen := by
    rw [length_ser_uint32, UInt32.toNat_ofNat', Nat.mod_eq_of_lt h]
  rw [ser_prepare]
  simp only [List.length_append, prepareForUpdate, hkey, hlen]
  show 4 + (1 + (16 + (varintLen updateLen + 1))) = _
  omega

/-- The packets carry the message to each server under its key, one frame after the other. -/
inductive Prepared (aesCcm : UpdateKey → LinkCipher) (message : PrepareForUpdate) :
    List (UInt8 × UpdateKey) → UInt16 → List Sent → Prop
  | done {frameCounter : UInt16} : Prepared aesCcm message [] frameCounter []
  | server {server : UInt8 × UpdateKey} {servers : List (UInt8 × UpdateKey)} {frameCounter : UInt16}
      {datagram : Packet} {sent : List Sent} (hfit : (ser message).length ≤ MIN_PAYLOAD_SIZE)
      (hframe : Frames (aesCcm server.2) frameCounter message datagram)
      (hrest : Prepared aesCcm message servers (frameCounter + 1) sent) :
      Prepared aesCcm message (server :: servers) frameCounter
        ({ datagram, delay := SERVER_REQUEST_RECEIVE_TIME } :: sent)

theorem Prepared.length {aesCcm : UpdateKey → LinkCipher} {message : PrepareForUpdate}
    {servers : List (UInt8 × UpdateKey)} {frameCounter : UInt16} {sent : List Sent}
    (h : Prepared aesCcm message servers frameCounter sent) : sent.length = servers.length := by
  induction h with
  | done => rfl
  | server _ _ _ ih => rw [List.length_cons, List.length_cons, ih]

section Run

variable {aesCcm : UpdateKey → LinkCipher} (hlawful : ∀ key, (aesCcm key).Lawful)
include hlawful

theorem prepareServersForUpdate_prepared (updateKey : UpdateKey) (updateLen : Nat) :
    ∀ (servers : List (UInt8 × UpdateKey)) (frameCounter : UInt16) (datagramBuf : Packet),
      ∃ sent datagramBuf', prepareServersForUpdate aesCcm updateKey updateLen servers frameCounter datagramBuf
          = .ok (sent, frameCounter + UInt16.ofNat servers.length, datagramBuf') ∧
        Prepared aesCcm (prepareForUpdate updateKey updateLen) servers frameCounter sent
  | [], frameCounter, datagramBuf => by
    refine ⟨[], datagramBuf, ?_, .done⟩
    rw [List.length_nil, add_ofNat_zero]
    rfl
  | server :: servers, frameCounter, datagramBuf => by
    have hfit : (ser (prepareForUpdate updateKey updateLen)).length ≤ MIN_PAYLOAD_SIZE :=
      Nat.le_trans (length_ser_prepare_le _) (by decide)
    obtain ⟨out, hout, hframe⟩ := createRequest_ok (hlawful server.2) hfit frameCounter datagramBuf
    obtain ⟨sent, datagramBuf', hrec, hprepared⟩ :=
      prepareServersForUpdate_prepared updateKey updateLen servers (frameCounter + 1) out
    refine ⟨_, datagramBuf', ?_, .server hfit hframe hprepared⟩
    rw [prepareServersForUpdate, createPrepareUpdateRequest, hout, List.length_cons, add_ofNat_succ]
    simp only [bind, Except.bind, hrec]
    rfl

theorem Prepared.nonces {message : PrepareForUpdate} {servers : List (UInt8 × UpdateKey)} {frameCounter : UInt16}
    {sent : List Sent} (h : Prepared aesCcm message servers frameCounter sent) : ∀ k x, sent[k]? = some x →
    nonceOf x.datagram
      = some (newNonce (requestHeader (frameCounter + UInt16.ofNat k)).toPacked (ser message).length) := by
  induction h with
  | done =>
    intro k x hx
    cases hx
  | @server server _ _ _ _ hfit hframe _ ih =>
    intro k x hx
    cases k with
    | zero =>
      cases hx
      rw [nonceOf_framed (hlawful server.2) hfit hframe, add_ofNat_zero]
    | succ k => rw [ih k x hx, add_ofNat_succ]

/-- **All the packets of a run**: the prepare messages, and the pieces numbered on from them. -/
theorem clientTask_prepared (servers : List (UInt8 × UpdateKey)) (updateKey : UpdateKey) {image : List UInt8}
    (himage : image.length < 2 ^ 28 + UPDATE_BYTES_SIZE) :
    ∃ prepared sent updates, clientTask aesCcm servers updateKey image = .ok (prepared, sent) ∧
      Prepared aesCcm (prepareForUpdate updateKey image.length) servers 0 prepared ∧
      Pieces (aesCcm updateKey) image 0 (0 + UInt16.ofNat prepared.length) sent updates := by
  obtain ⟨prepared, datagramBuf, hprepare, hprepared⟩ :=
    prepareServersForUpdate_prepared hlawful updateKey image.length servers 0 (Vector.replicate MIN_PACKET_SIZE 0)
  obtain ⟨sent, updates, hupdate, hpieces⟩ :=
    updateServers_pieces hlawful updateKey himage (0 + UInt16.ofNat servers.length) datagramBuf
  refine ⟨prepared, sent, updates, ?_, hprepared, hprepared.length ▸ hpieces⟩
  simp only [clientTask, hprepare, bind, Except.bind, hupdate]
  rfl

/-- **One run of the client uses no nonce twice**, under whatever keys, as long as the prepare messages and the pieces are
65536 packets at most. -/
theorem client_nonces_distinct (servers : List (UInt8 × UpdateKey)) (updateKey : UpdateKey) (image : List UInt8)
    (hpackets : servers.length + (image.length / 4096 * 152 + (image.length % 4096 + 26) / 27) ≤ 65536) :
    ∃ prepared updates, clientTask aesCcm servers updateKey image = .ok (prepared, updates) ∧
      ((prepared ++ updates).map (fun x => nonceOf x.datagram)).Nodup := by
  have himage : image.length < 2 ^ 28 + UPDATE_BYTES_SIZE := by omega
  obtain ⟨prepared, sent, updates, hok, hprepared, hpieces⟩ := clientTask_prepared hlawful servers updateKey himage
  have hnumbered : Numbered 0 (prepared ++ sent) :=
    Numbered.append (fun k x hx => ⟨_, hprepared.nonces hlawful k x hx⟩) (hpieces.numbered (hlawful updateKey))
  have hcount : sent.length + 0 = image.length / 4096 * 152 + (image.length % 4096 + 26) / 27 :=
    (hpieces.schedule (.inr rfl)).1
  refine ⟨prepared, sent, hok, hnumbered.nodup ?_⟩
  rw [List.length_append, hprepared.length]
  omega

omit hlawful in
theorem client_nonces_distinct_example :
    ∃ prepared updates, clientTask (fun key => (AesCcm.new key).toCipher) [(1, Vector.replicate 16 48)]
        (Vector.replicate 16 49) exampleImage = .ok (prepared, updates) ∧
      ((prepared ++ updates).map (fun x => nonceOf x.datagram)).Nodup :=
  client_nonces_distinct AesCcm.new_lawful [(1, Vector.replicate 16 48)] (Vector.replicate 16 49) exampleImage
    (by rw [length_exampleImage]; decide)

/-- **A long image uses nonces again, under its own key.**  Two pieces share a nonce exactly when they are a multiple of
65536 apart and their messages are of one length; from 1782435 bytes on some two do. -/
theorem update_nonces_repeat (servers : List (UInt8 × UpdateKey)) (updateKey : UpdateKey) (image : List UInt8)
    (himage : image.length < 2 ^ 28 + UPDATE_BYTES_SIZE) :
    ∃ prepared sent, clientTask aesCcm servers updateKey image = .ok (prepared, sent) ∧
      (∀ (i j : Nat) (x y : Sent), i < j → sent[i]? = some x → sent[j]? = some y →
        (nonceOf x.datagram = nonceOf y.datagram ↔
          65536 ∣ j - i ∧ payloadLenOf image.length i = payloadLenOf image.length j)) ∧
      (1782435 ≤ image.length → ¬ (sent.map (fun x => nonceOf x.datagram)).Nodup) := by
  obtain ⟨prepared, sent, updates, hok, -, hpieces⟩ := clientTask_prepared hlawful servers updateKey himage
  refine ⟨prepared, sent, hok, fun i j x y => hpieces.shared_iff (hlawful updateKey), ?_⟩
  intro hlong hnodup
  obtain ⟨hcount, -⟩ := hpieces.schedule (.inr rfl)
  have hzero : piecesBelow 0 = 0 := rfl
  have hall : piecesBelow image.length = image.length / 4096 * 152 + (image.length % 4096 + 26) / 27 := rfl
  have hj : 66144 < sent.length := by omega
  have hi : 608 < sent.length := by omega
  have hnonce := (hpieces.shared_iff (hlawful updateKey) (by decide) (List.getElem?_eq_getElem hi)
    (List.getElem?_eq_getElem hj)).2 ⟨⟨1, rfl⟩, payloadLenOf_again hlong⟩
  have hne := List.nodup_iff_getElem?_ne_getElem?.1 hnodup 608 66144 (by decide) (by rwa [List.length_map])
  apply hne
  rw [List.getElem?_map, List.getElem?_map, List.getElem?_eq_getElem hi, List.getElem?_eq_getElem hj]
  exact congrArg some hnonce

omit hlawful in
/-- Two mebibytes of zeros. -/
theorem update_nonces_repeat_two_mebibytes :
    ∃ prepared sent, clientTask (fun key => (AesCcm.new key).toCipher) [(1, Vector.replicate 16 48)]
        (Vector.replicate 16 49) (List.replicate (2 ^ 21) 0) = .ok (prepared, sent) ∧
      ¬ (sent.map (fun x => nonceOf x.datagram)).Nodup := by
  have himage : (List.replicate (2 ^ 21) (0 : UInt8)).length < 2 ^ 28 + UPDATE_BYTES_SIZE := by
    rw [List.length_replicate]
    decide
  obtain ⟨prepared, sent, hok, -, hrepeat⟩ := update_nonces_repeat AesCcm.new_lawful
    [(1, Vector.replicate 16 48)] (Vector.replicate 16 49) (List.replicate (2 ^ 21) 0) himage
  refine ⟨prepared, sent, hok, hrepeat ?_⟩
  rw [List.length_replicate]
  decide

/-- **Two updates share the nonces of their prepare messages**: whatever the keys and the images, the messages to the
`k`-th server are sealed under one nonce exactly when the images' lengths take as many bytes to write. -/
theorem prepare_nonces_repeat (servers : List (UInt8 × UpdateKey)) (updateKey updateKey' : UpdateKey)
    (image image' : List UInt8) (himage : image.length < 2 ^ 28) (himage' : image'.length < 2 ^ 28) :
    ∃ prepared updates prepared' updates', clientTask aesCcm servers updateKey image = .ok (prepared, updates) ∧
      clientTask aesCcm servers updateKey' image' = .ok (prepared', updates') ∧
      prepared.length = servers.length ∧ prepared'.length = servers.length ∧
      ∀ (k : Nat) (x x' : Sent), prepared[k]? = some x → prepared'[k]? = some x' →
        (nonceOf x.datagram = nonceOf x'.datagram ↔ varintLen image.length = varintLen image'.length) := by
  have hroom : image.length < 2 ^ 28 + UPDATE_BYTES_SIZE := Nat.lt_add_right _ himage
  have hroom' : image'.length < 2 ^ 28 + UPDATE_BYTES_SIZE := Nat.lt_add_right _ himage'
  obtain ⟨prepared, sent, -, hok, hprepared, -⟩ := clientTask_prepared hlawful servers updateKey hroom
  obtain ⟨prepared', sent', -, hok', hprepared', -⟩ := clientTask_prepared hlawful servers updateKey' hroom'
  refine ⟨prepared, sent, prepared', sent', hok, hok', hprepared.length, hprepared'.length, ?_⟩
  intro k x x' hx hx'
  have hmost : varintLen image.length ≤ 4 := varintLen_le (by decide) himage
  have hmost' : varintLen image'.length ≤ 4 := varintLen_le (by decide) himage'
  rw [hprepared.nonces hlawful k x hx, hprepared'.nonces hlawful k x' hx', Option.some.injEq, newNonce_inj,
    length_ser_prepareForUpdate updateKey (by omega), length_ser_prepareForUpdate updateKey' (by omega)]
  constructor
  · rintro ⟨-, hmod⟩
    omega
  · intro heq
    exact ⟨rfl, by rw [heq]⟩

end Run

/-- The example run again, with another key for the update. -/
theorem prepare_nonces_repeat_example :
    ∃ prepared updates prepared' updates',
      clientTask (fun key => (AesCcm.new key).toCipher) [(1, Vector.replicate 16 48)] (Vector.replicate 16 49)
        exampleImage = .ok (prepared, updates) ∧
      clientTask (fun key => (AesCcm.new key).toCipher) [(1, Vector.replicate 16 48)] (Vector.replicate 16 50)
        exampleImage = .ok (prepared', updates') ∧
      ∃ x x', prepared[0]? = some x ∧ prepared'[0]? = some x' ∧ nonceOf x.datagram = nonceOf x'.datagram := by
  obtain ⟨prepared, updates, prepared', updates', hok, hok', hlen, hlen', hnonces⟩ :=
    prepare_nonces_repeat AesCcm.new_lawful [(1, Vector.replicate 16 48)] (Vector.replicate 16 49)
      (Vector.replicate 16 50) exampleImage exampleImage (by rw [length_exampleImage]; decide)
      (by rw [length_exampleImage]; decide)
  have hone : 0 < [((1 : UInt8), (Vector.replicate 16 48 : UpdateKey))].length := Nat.one_pos
  obtain ⟨x, hx⟩ : ∃ x, prepared[0]? = some x := ⟨_, List.getElem?_eq_getElem (hlen ▸ hone)⟩
  obtain ⟨x', hx'⟩ : ∃ x', prepared'[0]? = some x' := ⟨_, List.getElem?_eq_getElem (hlen' ▸ hone)⟩
  exact ⟨prepared, updates, prepared', updates', hok, hok', _, _, hx, hx', (hnonces 0 _ _ hx hx').2 rfl⟩

end SoftwareUpdate
end FlipFlop
