import FlipFlop.UpdateRun
/-!
# UpdateBounds — how many bytes a server accepts (`data/examples/update/main.rs`, `mod server`)

A prepare message announces a length, and `process_active_update` looks for the end of the update by equality after it
has added a piece's length.  `tally` is what a server was announced and what it has accepted since;
`withinAnnounced_iff` says which runs keep the second within the first.
-/
namespace FlipFlop
namespace SoftwareUpdate

open Discovery (MIN_PACKET_SIZE)

/-! ## Announced and accepted -/

/-- The length that was announced last and the bytes accepted since, after one more turn. -/
def Event.tally (t : Option (Nat × Nat)) : Event → Option (Nat × Nat)
  | .activated prepareForUpdate => some (prepareForUpdate.updateByteLen.toNat, 0)
  | e => t.map (fun (announced, accepted) => (announced, accepted + (e.accepted.getD []).length))

def tally (events : List Event) : Option (Nat × Nat) := events.foldl Event.tally none

theorem tally_concat (events : List Event) (e : Event) : tally (events ++ [e]) = e.tally (tally events) := by
  simp [tally]

theorem Event.tally_of_quiet {e : Event} (hquiet : e.isActivated = false) (announced accepted : Nat) :
    e.tally (some (announced, accepted)) = some (announced, accepted + (e.accepted.getD []).length) := by
  cases e <;> first | rfl | cases hquiet

theorem Event.tally_of_nothing {e : Event} (hquiet : e.isActivated = false) (hnone : e.accepted = none)
    (t : Option (Nat × Nat)) : e.tally t = t := by
  cases t with
  | none => cases e <;> first | rfl | cases hquiet
  | some t => rw [Event.tally_of_quiet hquiet, hnone]; rfl

section Bounds

variable (aesCcm : UpdateKey → LinkCipher) (serverNetworkKey : UpdateKey)

/-- After these packets the server has accepted what was announced at most, and if it has accepted all of it the update
is over. -/
def WithinAnnounced (packets : List Packet) : Prop :=
  ∀ announced accepted, tally (eventsAfter aesCcm serverNetworkKey [] packets) = some (announced, accepted) →
    accepted ≤ announced ∧ (accepted = announced → stateAfter aesCcm serverNetworkKey packets = none)

/-- A piece at the expected offset is no longer than what is left of the update, and no update of no bytes is prepared. -/
structure Fits (active : Option UpdateInfo) (datagram : Packet) : Prop where
  piece : ∀ info update, activeRequest active datagram = .ok (some (info, update)) →
    update.byteOffset.toNat = info.nextByteOffset →
    info.nextByteOffset + update.bytes.toList.length ≤ info.byteLen
  prepare : ∀ prepareForUpdate, activeRequest active datagram = .ok none →
    processClientPrepareForUpdateRequest (aesCcm serverNetworkKey) datagram = .ok (some prepareForUpdate) →
    prepareForUpdate.version.cmp { major := 1, minor := 2, patch := 0, pre := none } = .gt →
    0 < prepareForUpdate.updateByteLen.toNat

end Bounds

section Fits

variable {aesCcm : UpdateKey → LinkCipher} {serverNetworkKey : UpdateKey} {active : Option UpdateInfo}
  {datagram : Packet}

theorem fits_of_piece {info : UpdateInfo} {update : Update UPDATE_BYTES_SIZE}
    (h : activeRequest active datagram = .ok (some (info, update))) :
    Fits aesCcm serverNetworkKey active datagram ↔
      (update.byteOffset.toNat = info.nextByteOffset →
        info.nextByteOffset + update.bytes.toList.length ≤ info.byteLen) := by
  constructor
  · intro hfits
    exact hfits.piece info update h
  · intro hroom
    refine ⟨fun info' update' h' => ?_, fun prepare h' => ?_⟩
    · rw [h] at h'
      cases h'
      exact hroom
    · rw [h] at h'
      cases h'

theorem fits_of_none (h : activeRequest active datagram = .ok none) :
    Fits aesCcm serverNetworkKey active datagram ↔ ∀ prepare : PrepareForUpdate,
      processClientPrepareForUpdateRequest (aesCcm serverNetworkKey) datagram = .ok (some prepare) →
      prepare.version.cmp { major := 1, minor := 2, patch := 0, pre := none } = .gt → 0 < prepare.updateByteLen.toNat := by
  constructor
  · intro hfits prepare
    exact hfits.prepare prepare h
  · intro hpos
    refine ⟨fun info update h' => ?_, fun prepare _ => hpos prepare⟩
    rw [h] at h'
    cases h'

end Fits

section Run

variable {aesCcm : UpdateKey → LinkCipher} {serverNetworkKey : UpdateKey}

variable (aesCcm serverNetworkKey) in
theorem tally_eventsAfter_concat (packets : List Packet) (d : Packet) :
    tally (eventsAfter aesCcm serverNetworkKey [] (packets ++ [d]))
      = (serverStep aesCcm serverNetworkKey (stateAfter aesCcm serverNetworkKey packets) d).2.tally
          (tally (eventsAfter aesCcm serverNetworkKey [] packets)) := by
  rw [eventsAfter_concat, tally_concat, List.nil_append]

/-- **The counter of an active update is its tally.** -/
theorem tally_of_active (packets : List Packet) : ∀ info, stateAfter aesCcm serverNetworkKey packets = some info →
    tally (eventsAfter aesCcm serverNetworkKey [] packets) = some (info.byteLen, info.nextByteOffset) := by
  induction packets using List.reverseRecOn with
  | nil =>
    intro info h
    cases h
  | append_singleton packets d ih =>
    intro info' h
    rw [stateAfter_concat] at h
    rw [tally_eventsAfter_concat]
    rcases serverStep_cases aesCcm serverNetworkKey (stateAfter aesCcm serverNetworkKey packets) d with
      ⟨info, update, hactive, hrequest⟩ | ⟨prepare, hrequest, hprepare, hnew⟩ | ⟨hstep, -⟩
    · by_cases hoff : update.byteOffset.toNat = info.nextByteOffset
      · obtain ⟨hnext, hquiet, haccepted⟩ := serverStep_accepted aesCcm serverNetworkKey hrequest hoff
        rw [ih info hactive, Event.tally_of_quiet hquiet, haccepted]
        rw [h] at hnext
        split at hnext
        · cases hnext
        · cases hnext
          rfl
      · rw [serverStep_abandoned aesCcm serverNetworkKey hrequest hoff] at h
        cases h
    · rw [serverStep_of_prepare hrequest hprepare hnew] at h ⊢
      cases h
      rfl
    · rw [hstep] at h ⊢
      rw [ih info' h]
      rfl

/-! ## One turn -/

/-- A turn that changes neither the tally nor, but to end it, the update. -/
theorem WithinAnnounced.of_same {front : List Packet} (h : WithinAnnounced aesCcm serverNetworkKey front) {d : Packet}
    (htally : tally (eventsAfter aesCcm serverNetworkKey [] (front ++ [d]))
      = tally (eventsAfter aesCcm serverNetworkKey [] front))
    (hstate : stateAfter aesCcm serverNetworkKey front = none → stateAfter aesCcm serverNetworkKey (front ++ [d]) = none) :
    WithinAnnounced aesCcm serverNetworkKey (front ++ [d]) := by
  intro announced accepted ht
  rw [htally] at ht
  obtain ⟨hle, hend⟩ := h announced accepted ht
  exact ⟨hle, fun heq => hstate (hend heq)⟩

theorem withinAnnounced_of_tally {packets : List Packet} {announced accepted : Nat}
    (h : tally (eventsAfter aesCcm serverNetworkKey [] packets) = some (announced, accepted)) :
    WithinAnnounced aesCcm serverNetworkKey packets ↔
      accepted ≤ announced ∧ (accepted = announced → stateAfter aesCcm serverNetworkKey packets = none) := by
  constructor
  · intro hw
    exact hw announced accepted h
  · intro hw announced' accepted' h'
    rw [h] at h'
    cases h'
    exact hw

/-- **One more packet**: where a run has kept within what was announced, it goes on to exactly if the packet fits. -/
theorem withinAnnounced_concat {front : List Packet} (d : Packet)
    (h : WithinAnnounced aesCcm serverNetworkKey front) :
    WithinAnnounced aesCcm serverNetworkKey (front ++ [d]) ↔
      Fits aesCcm serverNetworkKey (stateAfter aesCcm serverNetworkKey front) d := by
  have htally := tally_eventsAfter_concat aesCcm serverNetworkKey front d
  have hstate : stateAfter aesCcm serverNetworkKey (front ++ [d]) = _ := stateAfter_concat front d
  rcases serverStep_cases aesCcm serverNetworkKey (stateAfter aesCcm serverNetworkKey front) d with
    ⟨info, update, hactive, hrequest⟩ | ⟨prepare, hrequest, hprepare, hnew⟩ | ⟨hstep, hrequest, hold⟩
  · by_cases hoff : update.byteOffset.toNat = info.nextByteOffset
    · -- the piece is accepted, whatever its length: within the announced length exactly if there is room for it
      obtain ⟨hnext, hquiet, haccepted⟩ := serverStep_accepted aesCcm serverNetworkKey hrequest hoff
      rw [tally_of_active front info hactive, Event.tally_of_quiet hquiet, haccepted] at htally
      rw [withinAnnounced_of_tally htally, hstate, hnext, fits_of_piece hrequest]
      constructor
      · intro hw _
        exact hw.1
      · intro hroom
        exact ⟨hroom hoff, fun hend => if_pos hend⟩
    · rw [serverStep_abandoned aesCcm serverNetworkKey hrequest hoff] at htally hstate
      have hsame : WithinAnnounced aesCcm serverNetworkKey (front ++ [d]) :=
        h.of_same (htally.trans (Event.tally_of_nothing rfl rfl _)) (fun _ => hstate)
      exact iff_of_true hsame ((fits_of_piece hrequest).2 (fun hoff' => absurd hoff' hoff))
  · rw [serverStep_of_prepare hrequest hprepare hnew] at htally hstate
    rw [withinAnnounced_of_tally htally, hstate, fits_of_none hrequest]
    constructor
    · intro hw other hother _
      cases hprepare.symm.trans hother
      refine Nat.pos_of_ne_zero (fun hzero => ?_)
      cases hw.2 hzero.symm
    · intro hpos
      exact ⟨Nat.zero_le _, fun hzero => absurd hzero (Nat.ne_of_lt (hpos prepare hprepare hnew))⟩
  · rw [hstep] at htally hstate
    have hsame : WithinAnnounced aesCcm serverNetworkKey (front ++ [d]) :=
      h.of_same (htally.trans (Event.tally_of_nothing rfl rfl _)) (fun hnone => hstate.trans hnone)
    exact iff_of_true hsame ((fits_of_none hrequest).2 (fun prepare hp hnew => absurd hnew (hold prepare hp)))

/-- **Which runs keep within what was announced.**  The counter of an active update is the number of bytes accepted
since the activation.  Along a run it never passes the announced length, and the update is over once it is there, exactly
if every piece at the expected offset is no longer than what is left of the update then, and every update that is
activated announces a byte at least. -/
theorem withinAnnounced_iff (aesCcm : UpdateKey → LinkCipher) (serverNetworkKey : UpdateKey) (packets : List Packet) :
    (∀ front, front <+: packets → ∀ info, stateAfter aesCcm serverNetworkKey front = some info →
      tally (eventsAfter aesCcm serverNetworkKey [] front) = some (info.byteLen, info.nextByteOffset)) ∧
    ((∀ front, front <+: packets → WithinAnnounced aesCcm serverNetworkKey front) ↔
      ∀ front d back, packets = front ++ d :: back →
        Fits aesCcm serverNetworkKey (stateAfter aesCcm serverNetworkKey front) d) := by
  refine ⟨fun front _ => tally_of_active front, ?_⟩
  refine Mealy.prefixes_iff ?_ (fun front d h => withinAnnounced_concat d h) packets
  intro announced accepted h
  cases h

end Run

/-! ### A piece that is too long -/

/-- What announces two bytes, under the network key. -/
def overrunPacket : Packet :=
  #v[0, 0, 8, 0, 27, 128, 64, 77, 38, 123, 62, 38, 65, 246, 106, 128, 172, 45, 17, 179, 230, 111, 33, 46, 153, 148, 250, 1,
    117, 137, 220, 138, 0, 0, 0, 0, 0, 0, 0, 0, 0, 0]

/-- Two bytes are announced, a piece of three is accepted, and the update stays active. -/
theorem overrun_two_bytes :
    createPrepareUpdateRequest (AesCcm.new exampleServerKey).toCipher (prepareForUpdate exampleUpdateKey 2) 0
      (Vector.replicate MIN_PACKET_SIZE 0) = .ok overrunPacket ∧
    eventsAfter (fun key => (AesCcm.new key).toCipher) exampleServerKey [] [overrunPacket, chunkPacket]
      = [.activated (prepareForUpdate exampleUpdateKey 2),
         .update { byteOffset := 0, bytes := ⟨[7, 8, 9], by decide⟩ } .buffered] ∧
    (stateAfter (fun key => (AesCcm.new key).toCipher) exampleServerKey [overrunPacket, chunkPacket]).map
      (fun info => (info.byteLen, info.nextByteOffset)) = some (2, 3) ∧
    ¬ WithinAnnounced (fun key => (AesCcm.new key).toCipher) exampleServerKey [overrunPacket, chunkPacket] := by
  refine ⟨by decide +kernel, by decide +kernel, by decide +kernel, ?_⟩
  have htally : tally (eventsAfter (fun key => (AesCcm.new key).toCipher) exampleServerKey []
      [overrunPacket, chunkPacket]) = some (2, 3) := by decide +kernel
  intro h
  exact absurd (h 2 3 htally).1 (by decide)

end SoftwareUpdate
end FlipFlop
