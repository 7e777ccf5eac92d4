import FlipFlop.UpdateRun
/-!
# UpdateAdversary — updates under forged packets

Anything may arrive on the bus.  What authenticated encryption promises of a run is that no frame opens under a key of
the parties but one a client sealed (`Unforged`): frames may still be replayed, reordered, held back, and put in front of
other bytes.  A packet that opens nothing changes nothing, and one that opens is answered as the client's own packet
(`Delivery.turn_unforged`); so what a server reports as finished is still the image of the update that was activated
(`update_integrity_forged`).
-/
namespace FlipFlop
namespace SoftwareUpdate

open Rust Postcard

/-- A packet of one of the updates. -/
def Honest (aesCcm : UpdateKey → LinkCipher) (updates : List ClientUpdate) (datagram : Packet) : Prop :=
  ∃ u ∈ updates, u.Prepares aesCcm datagram ∨ u.Updates aesCcm datagram

/-- The packet holds a frame that decrypts under the key. -/
def Opens (cipher : LinkCipher) (datagram : Packet) : Prop :=
  ∃ dataFrame : DataFrame, fromBytes datagram.toList = .ok dataFrame ∧
    (cipher.decrypt (newNonce dataFrame.header (dataFrame.encryptedPayload.length - MIC_SIZE))
      (associatedData dataFrame.header) dataFrame.encryptedPayload).isSome = true

/-- The keys a server tries: its own and the updates'. -/
def Tried (updates : List ClientUpdate) (serverNetworkKey key : UpdateKey) : Prop :=
  key = serverNetworkKey ∨ ∃ u ∈ updates, key = u.updateKey

/-- A packet opens under a key of the parties only with the frame of a packet that a client sent. -/
def Unforged (aesCcm : UpdateKey → LinkCipher) (updates : List ClientUpdate) (serverNetworkKey : UpdateKey)
    (datagram : Packet) : Prop :=
  ∀ key, Tried updates serverNetworkKey key → Opens (aesCcm key) datagram →
    ∃ honest, Honest aesCcm updates honest ∧
      fromBytes (α := DataFrame) honest.toList = fromBytes (α := DataFrame) datagram.toList

/-! ## Packets of one frame -/

theorem fromDatagram_of_same_frame {datagram other : Packet}
    (h : fromBytes (α := DataFrame) datagram.toList = fromBytes (α := DataFrame) other.toList) (filter : Header → Bool)
    (cipher : LinkCipher) : fromDatagram datagram filter cipher = fromDatagram other filter cipher := by
  rw [fromDatagram_eq, fromDatagram_eq, h]

theorem processRequest_of_same_frame {α : Type} [Serde α] {datagram other : Packet}
    (h : fromBytes (α := DataFrame) datagram.toList = fromBytes (α := DataFrame) other.toList) (cipher : LinkCipher) :
    processRequest (α := α) cipher datagram = processRequest cipher other := by
  unfold processRequest Discovery.processMessage
  rw [fromDatagram_of_same_frame h]

theorem activeRequest_of_same_frame {datagram other : Packet}
    (h : fromBytes (α := DataFrame) datagram.toList = fromBytes (α := DataFrame) other.toList)
    (active : Option UpdateInfo) : activeRequest active datagram = activeRequest active other := by
  cases active with
  | none => rfl
  | some info => simp only [activeRequest, processClientUpdateRequest, processRequest_of_same_frame h]

/-- **A server looks at the frame of a packet only.** -/
theorem serverStep_of_same_frame {datagram other : Packet}
    (h : fromBytes (α := DataFrame) datagram.toList = fromBytes (α := DataFrame) other.toList)
    (aesCcm : UpdateKey → LinkCipher) (serverNetworkKey : UpdateKey) (active : Option UpdateInfo) :
    serverStep aesCcm serverNetworkKey active datagram = serverStep aesCcm serverNetworkKey active other := by
  unfold serverStep serverTask processClientPrepareForUpdateRequest
  rw [activeRequest_of_same_frame h, processRequest_of_same_frame h]

/-! ## Packets that open nothing -/

theorem processRequest_of_not_opens {α : Type} [Serde α] {cipher : LinkCipher} {datagram : Packet}
    (h : ¬ Opens cipher datagram) : processRequest (α := α) cipher datagram = .ok none := by
  unfold processRequest
  obtain ⟨answer, hanswer⟩ : ∃ answer, fromDatagram datagram requestFilter cipher = .ok answer :=
    ⟨_, fromDatagram_eq datagram requestFilter cipher⟩
  cases answer with
  | error e => exact Discovery.processMessage_of_error hanswer
  | ok read =>
    have hread := hanswer
    rw [fromDatagram_eq, Except.ok.injEq] at hread
    cases hframe : fromBytes (α := DataFrame) datagram.toList with
    | error e =>
      simp only [hframe] at hread
      cases hread
    | ok dataFrame =>
      simp only [hframe] at hread
      obtain ⟨header, payload⟩ := read
      obtain ⟨-, -, hdec⟩ := openFrame_ok hread
      exact absurd ⟨dataFrame, hframe, by rw [hdec]; rfl⟩ h

variable {aesCcm : UpdateKey → LinkCipher} {updates : List ClientUpdate} {serverNetworkKey : UpdateKey}

theorem serverStep_of_not_opens {active : Option UpdateInfo} {datagram : Packet}
    (hactive : ∀ info, active = some info → ¬ Opens info.cipher datagram)
    (hserver : ¬ Opens (aesCcm serverNetworkKey) datagram) :
    serverStep aesCcm serverNetworkKey active datagram = (active, .ignored) := by
  refine serverStep_of_none ?_ (processRequest_of_not_opens hserver)
  cases active with
  | none => rfl
  | some info => exact activeRequest_some (processRequest_of_not_opens (hactive info rfl))

/-- An unforged packet is answered as a packet of some update, or not at all. -/
theorem Unforged.cases {datagram : Packet} (hd : Unforged aesCcm updates serverNetworkKey datagram)
    {active : Option UpdateInfo}
    (hactive : ∀ info, active = some info → ∃ u ∈ updates, info.cipher = aesCcm u.updateKey) :
    (∃ honest, Honest aesCcm updates honest ∧
      fromBytes (α := DataFrame) honest.toList = fromBytes (α := DataFrame) datagram.toList) ∨
    serverStep aesCcm serverNetworkKey active datagram = (active, .ignored) := by
  by_cases hserver : Opens (aesCcm serverNetworkKey) datagram
  · exact .inl (hd _ (.inl rfl) hserver)
  · by_cases hopens : ∃ info, active = some info ∧ Opens info.cipher datagram
    · obtain ⟨info, hinfo, hopens⟩ := hopens
      obtain ⟨u, hu, hcipher⟩ := hactive info hinfo
      rw [hcipher] at hopens
      exact .inl (hd _ (.inr ⟨u, hu, rfl⟩) hopens)
    · exact .inr (serverStep_of_not_opens (fun info hinfo h => hopens ⟨info, hinfo, h⟩) hserver)

/-! ## One turn, then every run -/

/-- What the server did since the start, when it has accepted `n` bytes of the update it activated last. -/
def Accepted (aesCcm : UpdateKey → LinkCipher) (serverNetworkKey : UpdateKey) (packets : List Packet) (u : ClientUpdate)
    (n : Nat) : Prop :=
  ∃ early late, eventsAfter aesCcm serverNetworkKey [] packets
      = early ++ .activated (prepareForUpdate u.updateKey u.image.length) :: late ∧
    (∀ e ∈ late, e.isActivated = false) ∧ acceptedBytes late = u.image.take n

theorem Accepted.concat {packets : List Packet} {u : ClientUpdate} {n m : Nat}
    (h : Accepted aesCcm serverNetworkKey packets u n) {d : Packet} {e : Event}
    (he : (serverStep aesCcm serverNetworkKey (stateAfter aesCcm serverNetworkKey packets) d).2 = e)
    (hquiet : e.isActivated = false) (hbytes : u.image.take n ++ e.accepted.getD [] = u.image.take m) :
    Accepted aesCcm serverNetworkKey (packets ++ [d]) u m := by
  obtain ⟨early, late, hevents, hlate, haccepted⟩ := h
  refine ⟨early, late ++ [e], ?_, ?_, ?_⟩
  · rw [eventsAfter_concat, hevents, List.nil_append, he, List.append_assoc, List.cons_append]
  · intro x hx
    rcases List.mem_append.1 hx with hx | hx
    · exact hlate x hx
    · rw [List.mem_singleton.1 hx]
      exact hquiet
  · rw [acceptedBytes_concat, haccepted, hbytes]

/-- An accepted piece prolongs what was accepted. -/
theorem Accepted.piece {packets : List Packet} {u : ClientUpdate} {info : UpdateInfo}
    (h : Accepted aesCcm serverNetworkKey packets u info.nextByteOffset) {d : Packet}
    {update : Update UPDATE_BYTES_SIZE} (hchunk : ChunkOf u.image update)
    (hreq : activeRequest (stateAfter aesCcm serverNetworkKey packets) d = .ok (some (info, update)))
    (hoff : update.byteOffset.toNat = info.nextByteOffset) :
    Accepted aesCcm serverNetworkKey (packets ++ [d]) u (info.nextByteOffset + update.bytes.toList.length) := by
  obtain ⟨-, hquiet, haccepted⟩ := serverStep_accepted aesCcm serverNetworkKey hreq hoff
  refine h.concat rfl hquiet ?_
  rw [haccepted, ← hoff]
  exact hchunk.take_append

/-- The update that is active is one of the updates, accepted as far as the offset the server expects. -/
def AcceptedSoFar (aesCcm : UpdateKey → LinkCipher) (updates : List ClientUpdate) (serverNetworkKey : UpdateKey)
    (packets : List Packet) (info : UpdateInfo) : Prop :=
  ∃ u ∈ updates, info.cipher = aesCcm u.updateKey ∧ info.byteLen = u.image.length ∧
    Accepted aesCcm serverNetworkKey packets u info.nextByteOffset

/-- **What a turn can do with an unforged packet**: take it as a piece of the active update, activate an update, or
nothing. -/
theorem Delivery.turn_unforged (h : Delivery aesCcm updates serverNetworkKey) {packets : List Packet} {d : Packet}
    (hactive : ∀ info, stateAfter aesCcm serverNetworkKey packets = some info →
      AcceptedSoFar aesCcm updates serverNetworkKey packets info)
    (hd : Unforged aesCcm updates serverNetworkKey d) :
    (∃ u ∈ updates, ∃ info update, info.cipher = aesCcm u.updateKey ∧ info.byteLen = u.image.length ∧
      Accepted aesCcm serverNetworkKey packets u info.nextByteOffset ∧ ChunkOf u.image update ∧
      activeRequest (stateAfter aesCcm serverNetworkKey packets) d = .ok (some (info, update))) ∨
    (∃ v ∈ updates, serverStep aesCcm serverNetworkKey (stateAfter aesCcm serverNetworkKey packets) d
      = (some { cipher := aesCcm v.updateKey, byteLen := v.image.length, nextByteOffset := 0 },
          .activated (prepareForUpdate v.updateKey v.image.length))) ∨
    serverStep aesCcm serverNetworkKey (stateAfter aesCcm serverNetworkKey packets) d
      = (stateAfter aesCcm serverNetworkKey packets, .ignored) := by
  have hkey : ∀ info, stateAfter aesCcm serverNetworkKey packets = some info →
      ∃ u ∈ updates, info.cipher = aesCcm u.updateKey := by
    intro info hinfo
    obtain ⟨u, hu, hcipher, -⟩ := hactive info hinfo
    exact ⟨u, hu, hcipher⟩
  rcases hd.cases hkey with ⟨honest, ⟨v, hv, hsent⟩, hframe⟩ | hstep
  · rw [← activeRequest_of_same_frame hframe, ← serverStep_of_same_frame hframe]
    cases hs : stateAfter aesCcm serverNetworkKey packets with
    | none =>
      have hcipher : ∀ info, (none : Option UpdateInfo) = some info → info.cipher = aesCcm v.updateKey := by
        intro info hinfo
        cases hinfo
      rcases h.turn_cases hv hcipher hv hsent with ⟨info, _, hinfo, _⟩ | ⟨-, hstep⟩ | hstep
      · cases hinfo
      · exact .inr (.inl ⟨v, hv, hstep⟩)
      · exact .inr (.inr hstep)
    | some info =>
      obtain ⟨u, hu, hcipher, hlen, haccepted⟩ := hactive info hs
      have hcipher' : ∀ info', some info = some info' → info'.cipher = aesCcm u.updateKey := by
        intro info' hinfo'
        cases hinfo'
        exact hcipher
      rcases h.turn_cases hu hcipher' hv hsent with ⟨info', update, hinfo', hchunk, hreq⟩ | ⟨-, hstep⟩ | hstep
      · cases hinfo'
        exact .inl ⟨u, hu, info, update, hcipher, hlen, haccepted, hchunk, hreq⟩
      · exact .inr (.inl ⟨v, hv, hstep⟩)
      · exact .inr (.inr hstep)
  · exact .inr (.inr hstep)

/-- **Whenever an update is active, the server has accepted the image of an update up to the offset it expects.** -/
theorem Delivery.accepted_unforged (h : Delivery aesCcm updates serverNetworkKey) (packets : List Packet) :
    (∀ d ∈ packets, Unforged aesCcm updates serverNetworkKey d) →
    ∀ info, stateAfter aesCcm serverNetworkKey packets = some info →
      AcceptedSoFar aesCcm updates serverNetworkKey packets info := by
  induction packets using List.reverseRecOn with
  | nil =>
    intro _ info hinfo
    cases hinfo
  | append_singleton packets d ih =>
    intro hpackets info' hinfo'
    have ih := ih (fun x hx => hpackets x (List.mem_append_left [d] hx))
    rw [stateAfter_concat] at hinfo'
    rcases h.turn_unforged ih (hpackets d (List.mem_append_right packets List.mem_cons_self)) with
      ⟨u, hu, info, update, hcipher, hlen, haccepted, hchunk, hreq⟩ | ⟨v, hv, hstep⟩ | hstep
    · by_cases hoff : update.byteOffset.toNat = info.nextByteOffset
      · have hnext := (serverStep_accepted aesCcm serverNetworkKey hreq hoff).1
        rw [hinfo'] at hnext
        split at hnext
        · cases hnext
        · cases hnext
          exact ⟨u, hu, hcipher, hlen, haccepted.piece hchunk hreq hoff⟩
      · rw [serverStep_abandoned aesCcm serverNetworkKey hreq hoff] at hinfo'
        cases hinfo'
    · rw [hstep] at hinfo'
      cases hinfo'
      refine ⟨v, hv, rfl, rfl, eventsAfter aesCcm serverNetworkKey [] packets, [], ?_,
        fun e he => absurd he List.not_mem_nil, rfl⟩
      rw [eventsAfter_concat, List.nil_append, hstep]
    · rw [hstep] at hinfo'
      obtain ⟨u, hu, hcipher, hlen, haccepted⟩ := ih info' hinfo'
      exact ⟨u, hu, hcipher, hlen, haccepted.concat (e := .ignored) (by rw [hstep]) rfl (List.append_nil _)⟩

/-- **Update integrity under forged packets.**  Whatever packets reach a server, as long as no frame among them opens
under a key of the parties but one a client sealed: when it reports an update as finished, it activated an update of some
client, and what it has accepted since the last activation is that client's image. -/
theorem update_integrity_forged (h : Delivery aesCcm updates serverNetworkKey) (front : List Packet) (d : Packet)
    (hpackets : ∀ x ∈ front ++ [d], Unforged aesCcm updates serverNetworkKey x) {update : Update UPDATE_BYTES_SIZE}
    (hend : eventsAfter aesCcm serverNetworkKey front [d] = [.update update .finished]) :
    ∃ u ∈ updates, ∃ early late, eventsAfter aesCcm serverNetworkKey [] (front ++ [d])
        = early ++ .activated (prepareForUpdate u.updateKey u.image.length) :: late ∧
      (∀ e ∈ late, e.isActivated = false) ∧ acceptedBytes late = u.image := by
  have hfront : ∀ x ∈ front, Unforged aesCcm updates serverNetworkKey x :=
    fun x hx => hpackets x (List.mem_append_left [d] hx)
  have hd := hpackets d (List.mem_append_right front List.mem_cons_self)
  have hevent : (serverStep aesCcm serverNetworkKey (stateAfter aesCcm serverNetworkKey front) d).2
      = .update update .finished := (List.cons.inj hend).1
  rcases h.turn_unforged (h.accepted_unforged front hfront) hd with
    ⟨u, hu, info, update', -, hlen, haccepted, hchunk, hreq⟩ | ⟨v, -, hstep⟩ | hstep
  · by_cases hoff : update'.byteOffset.toNat = info.nextByteOffset
    · obtain ⟨outcome, -, hprocess, hlast⟩ := processActiveUpdate_accepted hoff
      rw [serverStep_of_active aesCcm serverNetworkKey hreq, hprocess] at hevent
      have hwhole := hlast.1 (Event.update.inj hevent).2
      obtain ⟨early, late, hevents, hquiet, hbytes⟩ := haccepted.piece hchunk hreq hoff
      rw [hwhole, hlen, List.take_length] at hbytes
      exact ⟨u, hu, early, late, hevents, hquiet, hbytes⟩
    · rw [serverStep_abandoned aesCcm serverNetworkKey hreq hoff] at hevent
      cases hevent
  · rw [hstep] at hevent
    cases hevent
  · rw [hstep] at hevent
    cases hevent

def zeroPacket : Packet := Vector.replicate Discovery.MIN_PACKET_SIZE 0

/-- A packet of zeros opens under neither key of the small update. -/
theorem zeroPacket_unforged : Unforged exampleAesCcm [exampleUpdate] exampleServerKey zeroPacket := by
  have hframe : fromBytes (α := DataFrame) zeroPacket.toList = .ok ⟨(0, 0, 0, 0), []⟩ := by decide +kernel
  rintro key hkey ⟨dataFrame, hread, hopens⟩
  rw [hframe] at hread
  cases hread
  rcases hkey with rfl | ⟨u, hu, rfl⟩
  · exact absurd hopens (by decide +kernel)
  · rw [List.mem_singleton.1 hu] at hopens
    exact absurd hopens (by decide +kernel)

theorem update_integrity_forged_zeros :
    ∃ u ∈ [exampleUpdate], ∃ early late,
      eventsAfter exampleAesCcm exampleServerKey [] ([preparePacket, zeroPacket] ++ [chunkPacket])
        = early ++ .activated (prepareForUpdate u.updateKey u.image.length) :: late ∧
      (∀ e ∈ late, e.isActivated = false) ∧ acceptedBytes late = u.image := by
  have hend : eventsAfter exampleAesCcm exampleServerKey [preparePacket, zeroPacket] [chunkPacket]
      = [.update { byteOffset := 0, bytes := ⟨[7, 8, 9], by decide⟩ } .finished] := by decide +kernel
  refine update_integrity_forged exampleUpdate_delivery [preparePacket, zeroPacket] chunkPacket ?_ hend
  intro x hx
  have hx' : x = preparePacket ∨ x = zeroPacket ∨ x = chunkPacket := by simpa using hx
  have hsent : ∀ y, Honest exampleAesCcm [exampleUpdate] y → Unforged exampleAesCcm [exampleUpdate] exampleServerKey y :=
    fun y hy _ _ _ => ⟨y, hy, rfl⟩
  rcases hx' with rfl | rfl | rfl
  · exact hsent _ ⟨exampleUpdate, List.mem_singleton.2 rfl, .inl exampleUpdate_prepares⟩
  · exact zeroPacket_unforged
  · exact hsent _ ⟨exampleUpdate, List.mem_singleton.2 rfl, .inr exampleUpdate_updates⟩

end SoftwareUpdate
end FlipFlop
