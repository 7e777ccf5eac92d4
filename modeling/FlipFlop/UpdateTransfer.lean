import FlipFlop.UpdateServer
/-!
# UpdateTransfer — the packets of one update, from the client's loop to the server's

The client cuts the image at packets and at multiples of 4096 and pauses longer at the latter; the server accepts pieces
at the offset it expects and does its heavy work where it sees a multiple of 4096 or the end.  The two agree on every
image whose pieces the client can encode (`updateServers_in_step_iff`).  `UPDATE_BYTES_OVERHEAD` leaves four bytes for an
offset that may take five, so that a full piece from `2 ^ 28` on does not fit and the client panics
(`update_overhead_iff`).
-/
namespace FlipFlop
namespace SoftwareUpdate

open Rust Postcard
open Discovery (MIN_PACKET_SIZE MIN_PAYLOAD_SIZE)

/-! ## The overhead of an update -/

/-- **When the overhead constant suffices.**  The encoding of an update exceeds its bytes by at most the constant exactly
at offsets below `2 ^ 28`; and a chunk of at most the size left beside the constant is sent and read back exactly when
its offset is below `2 ^ 28` or it is shorter than that. -/
theorem update_overhead_iff {cipher : LinkCipher} (hc : cipher.Lawful) {N : Nat} (update : Update N)
    (hlen : update.bytes.toList.length ≤ 127) :
    ((ser update).length ≤ update.bytes.toList.length + UPDATE_BYTES_OVERHEAD ↔ update.byteOffset.toNat < 2 ^ 28) ∧
    (update.bytes.toList.length ≤ MIN_PAYLOAD_SIZE - UPDATE_BYTES_OVERHEAD →
      ∀ (frameCounter : UInt16) (datagramBuf : Packet),
        (∃ out, createUpdateRequest cipher update frameCounter datagramBuf = .ok out ∧
          processClientUpdateRequest N cipher out = .ok (some update)) ↔
        update.byteOffset.toNat < 2 ^ 28 ∨
          update.bytes.toList.length < MIN_PAYLOAD_SIZE - UPDATE_BYTES_OVERHEAD) := by
  refine ⟨length_ser_update_le_iff update (by omega), fun hsize frameCounter datagramBuf => ?_⟩
  have hde : fromBytes (ser update) = .ok update := fromBytes_ser_update update (by unfold usizeBits; omega)
  change _ ↔ _ ∨ _ < UPDATE_BYTES_SIZE
  rw [← length_ser_update_fits_iff update hsize]
  constructor
  · rintro ⟨out, hout, -⟩
    by_contra hbig
    rw [createUpdateRequest, createRequest_panics (Nat.lt_of_not_le hbig)] at hout
    cases hout
  · intro hfit
    obtain ⟨out, hout, hframe⟩ := createRequest_ok hc hfit frameCounter datagramBuf
    have hcarries : Carries cipher update out := ⟨hfit, frameCounter, hframe⟩
    exact ⟨out, hout, hcarries.processRequest hc hde⟩

/-- A full piece at the last offset of four bytes, and at the first of five. -/
def fullUpdate (byteOffset : UInt32) : Update UPDATE_BYTES_SIZE :=
  { byteOffset, bytes := ⟨List.replicate UPDATE_BYTES_SIZE 0, by rw [List.length_replicate]⟩ }

theorem update_overhead_iff_last :
    (ser (fullUpdate 0x0fffffff)).length ≤ (fullUpdate 0x0fffffff).bytes.toList.length + UPDATE_BYTES_OVERHEAD ∧
    ∃ out, createUpdateRequest (AesCcm.new (Vector.replicate 16 48)).toCipher (fullUpdate 0x0fffffff) 0
        (Vector.replicate MIN_PACKET_SIZE 0) = .ok out ∧
      processClientUpdateRequest UPDATE_BYTES_SIZE (AesCcm.new (Vector.replicate 16 48)).toCipher out
        = .ok (some (fullUpdate 0x0fffffff)) := by
  obtain ⟨hsize, hrequest⟩ := update_overhead_iff (AesCcm.new_lawful (Vector.replicate 16 48)) (fullUpdate 0x0fffffff)
    (by decide)
  exact ⟨hsize.2 (by decide), (hrequest (by decide) 0 (Vector.replicate MIN_PACKET_SIZE 0)).2 (.inl (by decide))⟩

theorem update_overhead_exceeded :
    ¬ (ser (fullUpdate 0x10000000)).length ≤ (fullUpdate 0x10000000).bytes.toList.length + UPDATE_BYTES_OVERHEAD ∧
    createUpdateRequest (AesCcm.new (Vector.replicate 16 48)).toCipher (fullUpdate 0x10000000) 0
      (Vector.replicate MIN_PACKET_SIZE 0) = .error .unwrap := by
  refine ⟨by decide +kernel, createRequest_panics (by decide +kernel) _ _ _⟩

/-! ## The server, piece by piece -/

/-- The branches `process_active_update` takes on updates fed in order, from the start of an update. -/
def outcomes (cipher : LinkCipher) (byteLen nextByteOffset : Nat) (updates : List (Update UPDATE_BYTES_SIZE)) :
    List Outcome :=
  Mealy.outputs processActiveUpdate { cipher, byteLen, nextByteOffset } updates

/-- The branch the server takes on the piece at an offset. -/
def outcomeAt (byteLen offset : Nat) : Outcome :=
  if pieceEnd byteLen offset = byteLen then .finished
  else if pieceEnd byteLen offset % UPDATE_BYTES_PROCESSING_THRESHOLD = 0 then .flushed
  else .buffered

theorem PieceAt.processActiveUpdate {image : List UInt8} {offset : Nat} {update : Update UPDATE_BYTES_SIZE}
    (h : PieceAt image offset update) (hoff : offset < image.length) (cipher : LinkCipher) :
    SoftwareUpdate.processActiveUpdate { cipher, byteLen := image.length, nextByteOffset := offset } update
      = ({ cipher, byteLen := image.length, nextByteOffset := pieceEnd image.length offset },
          outcomeAt image.length offset) := by
  have hend := pieceEnd_bounds hoff
  have hnext : offset + update.bytes.toList.length = pieceEnd image.length offset := by
    rw [h.length hoff]
    omega
  unfold SoftwareUpdate.processActiveUpdate outcomeAt
  rw [if_neg (fun hne => hne h.starts)]
  simp only [hnext]
  split
  · rfl
  · split <;> rfl

theorem outcomeAt_ne_abandoned (byteLen offset : Nat) : outcomeAt byteLen offset ≠ .abandoned := by
  unfold outcomeAt
  split
  · decide
  · split <;> decide

theorem outcomeAt_returns {byteLen offset : Nat} :
    (outcomeAt byteLen offset).returns = true ↔ pieceEnd byteLen offset = byteLen := by
  unfold outcomeAt
  split
  · rename_i hlast
    exact ⟨fun _ => hlast, fun _ => rfl⟩
  · rename_i hlast
    split <;> exact ⟨fun hreturns => (by cases hreturns), fun heq => absurd heq hlast⟩

/-- **The client pauses longer exactly where the server's work is heavy.** -/
theorem pieceDelay_eq_iff {byteLen offset : Nat} (h : offset < byteLen) :
    pieceDelay byteLen offset = UPDATE_PROCESSING_TIME ↔
      outcomeAt byteLen offset = .flushed ∨ outcomeAt byteLen offset = .finished := by
  have hmet : pieceEnd byteLen offset = thresholdAt byteLen offset ↔
      pieceEnd byteLen offset = byteLen ∨ pieceEnd byteLen offset % UPDATE_BYTES_PROCESSING_THRESHOLD = 0 := by
    have h27 : UPDATE_BYTES_SIZE = 27 := rfl
    unfold pieceEnd thresholdAt UPDATE_BYTES_PROCESSING_THRESHOLD
    omega
  have hdelay : pieceDelay byteLen offset = UPDATE_PROCESSING_TIME ↔
      pieceEnd byteLen offset = thresholdAt byteLen offset := by
    unfold pieceDelay
    split
    · rename_i heq
      exact ⟨fun _ => heq, fun _ => rfl⟩
    · rename_i hne
      exact ⟨fun htime => absurd htime (by decide), fun heq => absurd heq hne⟩
  rw [hdelay, hmet]
  unfold outcomeAt
  split
  · rename_i hlast
    exact ⟨fun _ => .inr rfl, fun _ => .inl hlast⟩
  · rename_i hlast
    split
    · rename_i hflush
      exact ⟨fun _ => .inl rfl, fun _ => .inr hflush⟩
    · rename_i hflush
      exact ⟨fun hor => absurd hor (not_or.2 ⟨hlast, hflush⟩), fun hheavy => absurd hheavy (by decide)⟩

/-- No multiple of the threshold lies inside a piece. -/
theorem pieceEnd_le_multiple (byteLen : Nat) {offset k : Nat} (h : offset < k * UPDATE_BYTES_PROCESSING_THRESHOLD) :
    pieceEnd byteLen offset ≤ k * UPDATE_BYTES_PROCESSING_THRESHOLD := by
  unfold pieceEnd thresholdAt UPDATE_BYTES_PROCESSING_THRESHOLD at *
  omega

/-! ## Both ends of a transfer -/

/-- What client and server should agree on: the packets are read as updates that are the image, cut in order into pieces
of the right size that cross no threshold; the server accepts each, is finished with the last and with no other, and its
work is heavy exactly where the client pauses for it. -/
structure InStep (cipher : LinkCipher) (image : List UInt8) (sent : List Sent)
    (updates : List (Update UPDATE_BYTES_SIZE)) : Prop where
  read : List.Forall₂ (fun x update =>
    processClientUpdateRequest UPDATE_BYTES_SIZE cipher x.datagram = .ok (some update)) sent updates
  whole : updates.flatMap (fun update => update.bytes.toList) = image
  offsets : ∀ front update back, updates = front ++ update :: back →
    update.byteOffset.toNat = (front.flatMap (fun update => update.bytes.toList)).length
  sizes : ∀ update ∈ updates, 1 ≤ update.bytes.toList.length ∧ update.bytes.toList.length ≤ UPDATE_BYTES_SIZE
  apart : ∀ update ∈ updates, ∀ k, update.byteOffset.toNat < k * UPDATE_BYTES_PROCESSING_THRESHOLD →
    update.byteOffset.toNat + update.bytes.toList.length ≤ k * UPDATE_BYTES_PROCESSING_THRESHOLD
  accepted : ∀ outcome ∈ outcomes cipher image.length 0 updates, outcome ≠ .abandoned
  last : ∀ front outcome back, outcomes cipher image.length 0 updates = front ++ outcome :: back →
    (outcome.returns = true ↔ back = [])
  paused : List.Forall₂ (fun x outcome => x.delay = UPDATE_PROCESSING_TIME ↔ outcome = .flushed ∨ outcome = .finished)
    sent (outcomes cipher image.length 0 updates)

section Agreement

variable {cipher : LinkCipher} {image : List UInt8} {offset : Nat} {frameCounter : UInt16} {sent : List Sent}
  {updates : List (Update UPDATE_BYTES_SIZE)}

theorem Pieces.read (hc : cipher.Lawful) (h : Pieces cipher image offset frameCounter sent updates) :
    List.Forall₂ (fun x update =>
      processClientUpdateRequest UPDATE_BYTES_SIZE cipher x.datagram = .ok (some update)) sent updates := by
  induction h with
  | done => exact .nil
  | @piece offset frameCounter datagram update _ _ hoff hpiece hfit hframe hrest ih =>
    have hcarries : Carries cipher update datagram := ⟨hfit, frameCounter, hframe⟩
    have hlen : update.bytes.toList.length < 2 ^ usizeBits :=
      Nat.lt_of_le_of_lt update.bytes.length_le (by decide)
    exact .cons (hcarries.processRequest hc (fromBytes_ser_update update hlen)) ih

/-- The pieces are the rest of the image. -/
theorem Pieces.whole (h : Pieces cipher image offset frameCounter sent updates) :
    updates.flatMap (fun update => update.bytes.toList) = image.drop offset := by
  induction h with
  | done => rw [List.drop_length, List.flatMap_nil]
  | @piece offset _ _ update _ _ hoff hpiece _ _ _ ih =>
    have hend := pieceEnd_bounds hoff
    rw [List.flatMap_cons, hpiece.bytes, ih]
    have hsum : pieceEnd image.length offset = offset + (pieceEnd image.length offset - offset) := by omega
    rw [hsum, ← List.drop_drop, Nat.add_sub_cancel_left, List.take_append_drop]

theorem Pieces.offsets (h : Pieces cipher image offset frameCounter sent updates) :
    ∀ front update back, updates = front ++ update :: back →
      update.byteOffset.toNat = offset + (front.flatMap (fun update => update.bytes.toList)).length := by
  induction h with
  | done =>
    intro front update back hcut
    cases front <;> cases hcut
  | @piece offset _ _ piece _ _ hoff hpiece _ _ _ ih =>
    intro front update back hcut
    cases front with
    | nil =>
      cases hcut
      exact hpiece.starts
    | cons first front =>
      cases hcut
      have hend := pieceEnd_bounds hoff
      rw [ih front update back rfl, List.flatMap_cons, List.length_append, hpiece.length hoff]
      omega

theorem Pieces.sizes (h : Pieces cipher image offset frameCounter sent updates) :
    ∀ update ∈ updates,
      (1 ≤ update.bytes.toList.length ∧ update.bytes.toList.length ≤ UPDATE_BYTES_SIZE) ∧
      ∀ k, update.byteOffset.toNat < k * UPDATE_BYTES_PROCESSING_THRESHOLD →
        update.byteOffset.toNat + update.bytes.toList.length ≤ k * UPDATE_BYTES_PROCESSING_THRESHOLD := by
  induction h with
  | done => exact fun update hu => absurd hu List.not_mem_nil
  | @piece offset _ _ piece _ _ hoff hpiece _ _ _ ih =>
    intro update hu
    rcases List.mem_cons.1 hu with rfl | hu
    · have hend := pieceEnd_bounds hoff
      rw [hpiece.starts, hpiece.length hoff]
      refine ⟨by omega, fun k hk => ?_⟩
      have hle := pieceEnd_le_multiple image.length hk
      omega
    · exact ih update hu

/-- What the server does with the rest of the pieces, once it has the ones before. -/
theorem Pieces.outcomes_cons (hoff : offset < image.length) {update : Update UPDATE_BYTES_SIZE}
    (hpiece : PieceAt image offset update) (updates : List (Update UPDATE_BYTES_SIZE)) :
    outcomes cipher image.length offset (update :: updates)
      = outcomeAt image.length offset :: outcomes cipher image.length (pieceEnd image.length offset) updates := by
  unfold outcomes
  rw [Mealy.outputs, hpiece.processActiveUpdate hoff]

theorem Pieces.accepted (h : Pieces cipher image offset frameCounter sent updates) :
    ∀ outcome ∈ outcomes cipher image.length offset updates, outcome ≠ .abandoned := by
  induction h with
  | done => exact fun outcome ho => absurd ho List.not_mem_nil
  | piece hoff hpiece _ _ _ ih =>
    rw [outcomes_cons hoff hpiece]
    intro outcome ho
    rcases List.mem_cons.1 ho with rfl | ho
    · exact outcomeAt_ne_abandoned _ _
    · exact ih outcome ho

theorem Pieces.paused (h : Pieces cipher image offset frameCounter sent updates) :
    List.Forall₂ (fun x outcome => x.delay = UPDATE_PROCESSING_TIME ↔ outcome = .flushed ∨ outcome = .finished)
      sent (outcomes cipher image.length offset updates) := by
  induction h with
  | done => exact .nil
  | @piece offset _ _ _ _ _ hoff hpiece _ _ _ ih =>
    rw [outcomes_cons hoff hpiece]
    exact .cons (pieceDelay_eq_iff hoff) ih

theorem Pieces.outcomes_eq_nil_iff (h : Pieces cipher image offset frameCounter sent updates) :
    outcomes cipher image.length offset updates = [] ↔ offset = image.length := by
  cases h with
  | done => exact ⟨fun _ => rfl, fun _ => rfl⟩
  | piece hoff hpiece _ _ _ =>
    rw [outcomes_cons hoff hpiece]
    exact ⟨fun hnil => (by cases hnil), fun hend => absurd hoff (by omega)⟩

/-- The server is finished with the last piece, and with no other. -/
theorem Pieces.last (h : Pieces cipher image offset frameCounter sent updates) :
    ∀ front outcome back, outcomes cipher image.length offset updates = front ++ outcome :: back →
      (outcome.returns = true ↔ back = []) := by
  induction h with
  | done =>
    intro front outcome back hcut
    cases front <;> cases hcut
  | piece hoff hpiece _ _ hrest ih =>
    rw [outcomes_cons hoff hpiece]
    intro front outcome back hcut
    cases front with
    | nil =>
      obtain ⟨rfl, rfl⟩ := List.cons.inj hcut
      rw [outcomeAt_returns, hrest.outcomes_eq_nil_iff]
    | cons first front => exact ih front outcome back (List.cons.inj hcut).2

theorem Pieces.inStep (hc : cipher.Lawful) (h : Pieces cipher image 0 frameCounter sent updates) :
    InStep cipher image sent updates where
  read := h.read hc
  whole := by rw [h.whole, List.drop_zero]
  offsets front update back hcut := by rw [h.offsets front update back hcut, Nat.zero_add]
  sizes update hu := (h.sizes update hu).1
  apart update hu := (h.sizes update hu).2
  accepted := h.accepted
  last := h.last
  paused := h.paused

end Agreement

/-! ## Images the client cannot send -/

section Panic

variable {aesCcm : UpdateKey → LinkCipher} (hlawful : ∀ key, (aesCcm key).Lawful)
include hlawful

/-- **A full piece at offset `2 ^ 28` is more than a payload holds**, and the loop gets there: the offset is a multiple
of the threshold. -/
theorem updateLoop_panics (updateKey : UpdateKey) {image : List UInt8}
    (himage : 2 ^ 28 + UPDATE_BYTES_SIZE ≤ image.length) (himage' : image.length < 2 ^ 32) :
    ∀ (fuel offset : Nat) (frameCounter : UInt16) (datagramBuf : Packet), offset ≤ 2 ^ 28 → 2 ^ 28 < offset + fuel →
      updateLoop aesCcm updateKey image image.length fuel offset (thresholdAt image.length offset) frameCounter
        datagramBuf = .error .unwrap
  | 0, _, _, _, hle, hfuel => absurd hfuel (by omega)
  | fuel + 1, offset, frameCounter, datagramBuf, hle, hfuel => by
    have h27 : UPDATE_BYTES_SIZE = 27 := rfl
    have hoff : offset < image.length := by omega
    obtain ⟨hlt, -, -⟩ := pieceEnd_bounds hoff
    obtain ⟨update, hpiece, hstep⟩ := updateLoop_step aesCcm updateKey himage' hoff
    have hfits := hpiece.length_ser hoff
    rw [hstep, createUpdateRequest]
    by_cases hlast : offset = 2 ^ 28
    · have hfull : pieceEnd image.length offset - offset = UPDATE_BYTES_SIZE := by
        rw [hlast]
        unfold pieceEnd thresholdAt UPDATE_BYTES_PROCESSING_THRESHOLD
        omega
      rw [createRequest_panics (by omega)]
      rfl
    · obtain ⟨out, hout, -⟩ := createRequest_ok (hlawful updateKey) (hfits.2 (.inl (by omega))) frameCounter datagramBuf
      have hbefore : pieceEnd image.length offset ≤ 2 ^ 28 :=
        pieceEnd_le_multiple image.length (k := 2 ^ 16) (show offset < 2 ^ 16 * 4096 by omega)
      rw [hout]
      simp only [Except.bind]
      rw [thresholdAt_pieceEnd (by omega),
        updateLoop_panics updateKey himage himage' fuel _ (frameCounter + 1) out hbefore (by omega)]

theorem updateServers_panics (updateKey : UpdateKey) {image : List UInt8}
    (himage : 2 ^ 28 + UPDATE_BYTES_SIZE ≤ image.length) (himage' : image.length < 2 ^ 32) (frameCounter : UInt16)
    (datagramBuf : Packet) :
    updateServers aesCcm updateKey image image.length frameCounter datagramBuf = .error .unwrap := by
  unfold updateServers
  rw [← thresholdAt_zero]
  exact updateLoop_panics hlawful updateKey himage himage' _ 0 frameCounter datagramBuf (by omega) (by omega)

/-- **When client chunking and server flushing agree**: on every image of fewer than `2 ^ 28 + 27` bytes; on a longer one
the loop ends in a panic. -/
theorem updateServers_in_step_iff (updateKey : UpdateKey) (image : List UInt8) (himage : image.length < 2 ^ 32)
    (frameCounter : UInt16) (datagramBuf : Packet) :
    ((∃ sent updates, updateServers aesCcm updateKey image image.length frameCounter datagramBuf = .ok sent ∧
        InStep (aesCcm updateKey) image sent updates) ↔ image.length < 2 ^ 28 + 27) ∧
    (2 ^ 28 + 27 ≤ image.length →
      updateServers aesCcm updateKey image image.length frameCounter datagramBuf = .error .unwrap) := by
  refine ⟨⟨?_, ?_⟩, fun hlong => updateServers_panics hlawful updateKey hlong himage frameCounter datagramBuf⟩
  · rintro ⟨sent, updates, hok, -⟩
    by_contra hlong
    rw [updateServers_panics hlawful updateKey (Nat.le_of_not_lt hlong) himage] at hok
    cases hok
  · intro hshort
    obtain ⟨sent, updates, hok, hpieces⟩ := updateServers_pieces hlawful updateKey hshort frameCounter datagramBuf
    exact ⟨sent, updates, hok, hpieces.inStep (hlawful updateKey)⟩

end Panic

theorem updateServers_in_step_iff_five_thousand :
    ∃ sent updates, updateServers (fun key => (AesCcm.new key).toCipher) (Vector.replicate 16 48)
        (List.replicate 5000 7) (List.replicate 5000 (7 : UInt8)).length 0 (Vector.replicate MIN_PACKET_SIZE 0)
          = .ok sent ∧
      InStep (AesCcm.new (Vector.replicate 16 48)).toCipher (List.replicate 5000 7) sent updates := by
  have hlen : (List.replicate 5000 (7 : UInt8)).length = 5000 := List.length_replicate
  exact (updateServers_in_step_iff AesCcm.new_lawful (Vector.replicate 16 48) (List.replicate 5000 7)
    (by rw [hlen]; decide) 0 (Vector.replicate MIN_PACKET_SIZE 0)).1.2 (by rw [hlen]; decide)

theorem updateServers_too_long :
    ¬ ∃ sent updates, updateServers (fun key => (AesCcm.new key).toCipher) (Vector.replicate 16 48)
        (List.replicate (2 ^ 28 + 27) 7) (List.replicate (2 ^ 28 + 27) (7 : UInt8)).length 0
        (Vector.replicate MIN_PACKET_SIZE 0) = .ok sent ∧
      InStep (AesCcm.new (Vector.replicate 16 48)).toCipher (List.replicate (2 ^ 28 + 27) 7) sent updates := by
  rintro ⟨sent, updates, hok, -⟩
  have hlen : (List.replicate (2 ^ 28 + 27) (7 : UInt8)).length = 2 ^ 28 + 27 := List.length_replicate
  rw [updateServers_panics AesCcm.new_lawful (Vector.replicate 16 48) (Nat.le_of_eq hlen.symm)
    (by rw [hlen]; decide)] at hok
  cases hok

end SoftwareUpdate
end FlipFlop
