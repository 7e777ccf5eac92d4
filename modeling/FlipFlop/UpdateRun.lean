import Mathlib
import FlipFlop.UpdateServer
/-!
# UpdateRun — updates over any delivery

Any number of clients' updates, each under a key of its own, and a server that is handed any of their packets in any
order and any number of times.  The server keeps a counter, a length and a key; `Tracks` ties them to the image of the
update that was activated last, and `update_integrity` reads the image off it.
-/
namespace FlipFlop
namespace SoftwareUpdate

open Rust Postcard
open Discovery (MIN_PACKET_SIZE MIN_PAYLOAD_SIZE)

/-- One call of `client::task`. -/
structure ClientUpdate where
  servers : List (UInt8 × UpdateKey)
  updateKey : UpdateKey
  image : List UInt8

section Delivery

variable (aesCcm : UpdateKey → LinkCipher) (updates : List ClientUpdate) (serverNetworkKey : UpdateKey)

def ClientUpdate.Prepares (u : ClientUpdate) (datagram : Packet) : Prop :=
  ∃ prepared sent, clientTask aesCcm u.servers u.updateKey u.image = .ok (prepared, sent) ∧
    datagram ∈ prepared.map Sent.datagram

def ClientUpdate.Updates (u : ClientUpdate) (datagram : Packet) : Prop :=
  ∃ prepared sent, clientTask aesCcm u.servers u.updateKey u.image = .ok (prepared, sent) ∧
    datagram ∈ sent.map Sent.datagram

/-- The keys of the updates and of the servers. -/
def InUse (key : UpdateKey) : Prop :=
  key = serverNetworkKey ∨ ∃ u ∈ updates, key = u.updateKey ∨ ∃ server ∈ u.servers, key = server.2

/-- What the parties are promised: every cipher does its work and opens nothing another sealed, every update has a key
of its own that no server has, and images are short of `2 ^ 28` bytes. -/
structure Delivery : Prop where
  lawful : ∀ key, (aesCcm key).Lawful
  separate : Aead.Separate aesCcm (InUse updates serverNetworkKey)
  own : ∀ u ∈ updates, ∀ v ∈ updates, u.updateKey = v.updateKey → u = v
  fresh : ∀ u ∈ updates, u.updateKey ≠ serverNetworkKey ∧ ∀ v ∈ updates, ∀ server ∈ v.servers, server.2 ≠ u.updateKey
  short : ∀ u ∈ updates, u.image.length < 2 ^ 28

end Delivery

section Run

variable {aesCcm : UpdateKey → LinkCipher} {updates : List ClientUpdate} {serverNetworkKey : UpdateKey}

theorem Delivery.carries_prepare (h : Delivery aesCcm updates serverNetworkKey) {u : ClientUpdate} (hu : u ∈ updates)
    {datagram : Packet} (hd : u.Prepares aesCcm datagram) : ∃ server ∈ u.servers,
      Carries (aesCcm server.2) (prepareForUpdate u.updateKey u.image.length) datagram := by
  obtain ⟨prepared, sent, hok, hmem⟩ := hd
  obtain ⟨prepared', sent', hok', hprepared, -⟩ := clientTask_ok h.lawful u.servers u.updateKey u.image (h.short u hu)
  rw [hok] at hok'
  cases hok'
  obtain ⟨x, hx, rfl⟩ := List.mem_map.1 hmem
  exact hprepared x hx

theorem Delivery.carries_update (h : Delivery aesCcm updates serverNetworkKey) {u : ClientUpdate} (hu : u ∈ updates)
    {datagram : Packet} (hd : u.Updates aesCcm datagram) : ∃ update,
      ChunkOf u.image update ∧ Carries (aesCcm u.updateKey) update datagram := by
  obtain ⟨prepared, sent, hok, hmem⟩ := hd
  obtain ⟨prepared', sent', hok', -, hsent⟩ := clientTask_ok h.lawful u.servers u.updateKey u.image (h.short u hu)
  rw [hok] at hok'
  cases hok'
  obtain ⟨x, hx, rfl⟩ := List.mem_map.1 hmem
  exact hsent x hx

/-- A packet sealed with one key in use is nothing to the cipher of another. -/
theorem Delivery.processRequest_none (h : Delivery aesCcm updates serverNetworkKey) {α β : Type} [Serde α] [Serde β]
    {key key' : UpdateKey} (hkey : InUse updates serverNetworkKey key) (hkey' : InUse updates serverNetworkKey key')
    (hne : key ≠ key') {message : α} {datagram : Packet} (hd : Carries (aesCcm key) message datagram) :
    processRequest (α := β) (aesCcm key') datagram = .ok none :=
  hd.processRequest_none (h.lawful key) (h.separate key key' hkey hkey' hne)

theorem Delivery.activeRequest_none (h : Delivery aesCcm updates serverNetworkKey) {active : Option UpdateInfo}
    {u : ClientUpdate} (hu : u ∈ updates) (hactive : ∀ info, active = some info → info.cipher = aesCcm u.updateKey)
    {key : UpdateKey} (hkey : InUse updates serverNetworkKey key) (hne : key ≠ u.updateKey) {α : Type} [Serde α]
    {message : α} {datagram : Packet} (hd : Carries (aesCcm key) message datagram) :
    activeRequest active datagram = .ok none := by
  cases active with
  | none => rfl
  | some info =>
    have hnone : processClientUpdateRequest UPDATE_BYTES_SIZE info.cipher datagram = .ok none := by
      rw [hactive info rfl]
      exact h.processRequest_none hkey (.inr ⟨u, hu, .inl rfl⟩) hne hd
    exact activeRequest_some hnone

theorem updateByteLen_prepareForUpdate {u : ClientUpdate} (hu : u.image.length < 2 ^ 28) :
    (prepareForUpdate u.updateKey u.image.length).updateByteLen.toNat = u.image.length := by
  rw [prepareForUpdate, UInt32.toNat_ofNat']
  omega

theorem cmp_prepareForUpdate (updateKey : UpdateKey) (updateLen : Nat) :
    (prepareForUpdate updateKey updateLen).version.cmp { major := 1, minor := 2, patch := 0, pre := none } = .gt :=
  (by decide : Version.cmp ⟨1, 2, 3, none⟩ ⟨1, 2, 0, none⟩ = .gt)

/-- **What a turn can do with a packet of the update `v` while `u` is active**: take it as a piece of `u`, activate `v`,
or nothing. -/
theorem Delivery.turn_cases (h : Delivery aesCcm updates serverNetworkKey) {active : Option UpdateInfo}
    {u : ClientUpdate} (hu : u ∈ updates) (hactive : ∀ info, active = some info → info.cipher = aesCcm u.updateKey)
    {v : ClientUpdate} (hv : v ∈ updates) {datagram : Packet}
    (hd : v.Prepares aesCcm datagram ∨ v.Updates aesCcm datagram) :
    (∃ info update, active = some info ∧ ChunkOf u.image update ∧
      activeRequest active datagram = .ok (some (info, update))) ∨
    (v.Prepares aesCcm datagram ∧ serverStep aesCcm serverNetworkKey active datagram
      = (some { cipher := aesCcm v.updateKey, byteLen := v.image.length, nextByteOffset := 0 },
          .activated (prepareForUpdate v.updateKey v.image.length))) ∨
    serverStep aesCcm serverNetworkKey active datagram = (active, .ignored) := by
  have hserver : InUse updates serverNetworkKey serverNetworkKey := .inl rfl
  rcases hd with hd | hd
  · -- a prepare message opens under the key of the server it is for, which is no update's key
    obtain ⟨server, hmem, hcarries⟩ := h.carries_prepare hv hd
    have hkey : InUse updates serverNetworkKey server.2 := .inr ⟨v, hv, .inr ⟨server, hmem, rfl⟩⟩
    have hnone := h.activeRequest_none hu hactive hkey ((h.fresh u hu).2 v hv server hmem) hcarries
    by_cases hmine : server.2 = serverNetworkKey
    · rw [hmine] at hcarries
      have hopen := hcarries.processRequest (h.lawful _) (fromBytes_ser _)
      refine .inr (.inl ⟨hd, ?_⟩)
      rw [serverStep_of_prepare hnone hopen (cmp_prepareForUpdate _ _), updateByteLen_prepareForUpdate (h.short v hv)]
      rfl
    · exact .inr (.inr (serverStep_of_none hnone (h.processRequest_none hkey hserver hmine hcarries)))
  · obtain ⟨update, hchunk, hcarries⟩ := h.carries_update hv hd
    have hkey : InUse updates serverNetworkKey v.updateKey := .inr ⟨v, hv, .inl rfl⟩
    have hskip : activeRequest active datagram = .ok none →
        serverStep aesCcm serverNetworkKey active datagram = (active, .ignored) := fun hnone =>
      serverStep_of_none hnone (h.processRequest_none hkey hserver (h.fresh v hv).1 hcarries)
    by_cases hsame : v.updateKey = u.updateKey
    · obtain rfl : v = u := h.own v hv u hu hsame
      cases active with
      | none => exact .inr (.inr (hskip rfl))
      | some info =>
        have hbytes : update.bytes.toList.length < 2 ^ usizeBits :=
          Nat.lt_of_le_of_lt update.bytes.length_le (by decide)
        have hopen : processClientUpdateRequest UPDATE_BYTES_SIZE info.cipher datagram = .ok (some update) := by
          rw [hactive info rfl]
          exact hcarries.processRequest (h.lawful _) (fromBytes_ser_update update hbytes)
        exact .inl ⟨info, update, rfl, hchunk, activeRequest_some hopen⟩
    · exact .inr (.inr (hskip (h.activeRequest_none hu hactive hkey hsame hcarries)))

/-! ## Whole runs -/

theorem ChunkOf.take_append {image : List UInt8} {update : Update UPDATE_BYTES_SIZE} (h : ChunkOf image update) :
    image.take update.byteOffset.toNat ++ update.bytes.toList
      = image.take (update.byteOffset.toNat + update.bytes.toList.length) := by
  rw [List.take_add, ← h.bytes]

/-- The state the server is in after some packets. -/
def stateAfter (aesCcm : UpdateKey → LinkCipher) (serverNetworkKey : UpdateKey) (packets : List Packet) :
    Option UpdateInfo :=
  Mealy.run (serverStep aesCcm serverNetworkKey) none packets

/-- What the server did with `more`, after some packets. -/
def eventsAfter (aesCcm : UpdateKey → LinkCipher) (serverNetworkKey : UpdateKey) (packets more : List Packet) :
    List Event :=
  Mealy.outputs (serverStep aesCcm serverNetworkKey) (stateAfter aesCcm serverNetworkKey packets) more

def acceptedBytes (events : List Event) : List UInt8 := (events.filterMap Event.accepted).flatten

theorem acceptedBytes_concat (events : List Event) (e : Event) :
    acceptedBytes (events ++ [e]) = acceptedBytes events ++ e.accepted.getD [] := by
  unfold acceptedBytes
  rw [List.filterMap_append, List.flatten_append]
  cases he : e.accepted <;> simp [he]

/-- After the packet `p` of `u` activated it, and `since` without another activation: the server has accepted the
image of `u` up to the offset it expects. -/
structure Tracks (aesCcm : UpdateKey → LinkCipher) (serverNetworkKey : UpdateKey) (before : List Packet) (p : Packet)
    (since : List Packet) (u : ClientUpdate) (info : UpdateInfo) : Prop where
  prepares : u.Prepares aesCcm p
  activated : eventsAfter aesCcm serverNetworkKey before [p]
    = [.activated (prepareForUpdate u.updateKey u.image.length)]
  quiet : ∀ e ∈ eventsAfter aesCcm serverNetworkKey (before ++ [p]) since, e.isActivated = false
  cipher : info.cipher = aesCcm u.updateKey
  byteLen : info.byteLen = u.image.length
  accepted : acceptedBytes (eventsAfter aesCcm serverNetworkKey (before ++ [p]) since)
    = u.image.take info.nextByteOffset

theorem eventsAfter_concat (packets more : List Packet) (d : Packet) :
    eventsAfter aesCcm serverNetworkKey packets (more ++ [d]) = eventsAfter aesCcm serverNetworkKey packets more
      ++ [(serverStep aesCcm serverNetworkKey (stateAfter aesCcm serverNetworkKey (packets ++ more)) d).2] := by
  unfold eventsAfter stateAfter
  rw [Mealy.outputs_concat, Mealy.run_append]

theorem stateAfter_concat (packets : List Packet) (d : Packet) :
    stateAfter aesCcm serverNetworkKey (packets ++ [d])
      = (serverStep aesCcm serverNetworkKey (stateAfter aesCcm serverNetworkKey packets) d).1 :=
  Mealy.run_concat _ _ _ _

/-- A turn that activates nothing prolongs what was tracked. -/
theorem Tracks.concat {before since : List Packet} {p : Packet} {u : ClientUpdate} {info info' : UpdateInfo}
    (h : Tracks aesCcm serverNetworkKey before p since u info) {d : Packet} {e : Event}
    (he : (serverStep aesCcm serverNetworkKey (stateAfter aesCcm serverNetworkKey (before ++ p :: since)) d).2 = e)
    (hquiet : e.isActivated = false) (hcipher : info'.cipher = info.cipher) (hlen : info'.byteLen = info.byteLen)
    (hbytes : u.image.take info.nextByteOffset ++ e.accepted.getD [] = u.image.take info'.nextByteOffset) :
    Tracks aesCcm serverNetworkKey before p (since ++ [d]) u info' := by
  have hevents : eventsAfter aesCcm serverNetworkKey (before ++ [p]) (since ++ [d])
      = eventsAfter aesCcm serverNetworkKey (before ++ [p]) since ++ [e] := by
    rw [eventsAfter_concat, List.append_assoc, List.singleton_append, he]
  refine ⟨h.prepares, h.activated, ?_, hcipher.trans h.cipher, hlen.trans h.byteLen, ?_⟩
  · rw [hevents]
    intro x hx
    rcases List.mem_append.1 hx with hx | hx
    · exact h.quiet x hx
    · rw [List.mem_singleton.1 hx]
      exact hquiet
  · rw [hevents, acceptedBytes_concat, h.accepted, hbytes]

theorem Tracks.accept {before since : List Packet} {p : Packet} {u : ClientUpdate} {info : UpdateInfo}
    (h : Tracks aesCcm serverNetworkKey before p since u info) {d : Packet} {update : Update UPDATE_BYTES_SIZE}
    (hchunk : ChunkOf u.image update)
    (hreq : activeRequest (stateAfter aesCcm serverNetworkKey (before ++ p :: since)) d = .ok (some (info, update)))
    (hoff : update.byteOffset.toNat = info.nextByteOffset) :
    Tracks aesCcm serverNetworkKey before p (since ++ [d]) u
      { info with nextByteOffset := info.nextByteOffset + update.bytes.toList.length } := by
  obtain ⟨-, hquiet, haccepted⟩ := serverStep_accepted aesCcm serverNetworkKey hreq hoff
  refine h.concat rfl hquiet rfl rfl ?_
  rw [haccepted, ← hoff]
  exact hchunk.take_append

/-- The packets hold an activation that the state is the outcome of. -/
def Explains (aesCcm : UpdateKey → LinkCipher) (updates : List ClientUpdate) (serverNetworkKey : UpdateKey)
    (packets : List Packet) (info : UpdateInfo) : Prop :=
  ∃ before p since u, packets = before ++ p :: since ∧ u ∈ updates ∧
    Tracks aesCcm serverNetworkKey before p since u info

/-- The turns of `turn_cases`, in a run whose active update is explained. -/
theorem Delivery.turn (h : Delivery aesCcm updates serverNetworkKey) {packets : List Packet} {d : Packet}
    (hexplained : ∀ info, stateAfter aesCcm serverNetworkKey packets = some info →
      Explains aesCcm updates serverNetworkKey packets info)
    (hd : ∃ v ∈ updates, v.Prepares aesCcm d ∨ v.Updates aesCcm d) :
    (∃ before p since u info update, packets = before ++ p :: since ∧ u ∈ updates ∧
      Tracks aesCcm serverNetworkKey before p since u info ∧ ChunkOf u.image update ∧
      activeRequest (stateAfter aesCcm serverNetworkKey packets) d = .ok (some (info, update))) ∨
    (∃ v ∈ updates, v.Prepares aesCcm d ∧
      serverStep aesCcm serverNetworkKey (stateAfter aesCcm serverNetworkKey packets) d
        = (some { cipher := aesCcm v.updateKey, byteLen := v.image.length, nextByteOffset := 0 },
            .activated (prepareForUpdate v.updateKey v.image.length))) ∨
    serverStep aesCcm serverNetworkKey (stateAfter aesCcm serverNetworkKey packets) d
      = (stateAfter aesCcm serverNetworkKey packets, .ignored) := by
  obtain ⟨v, hv, hd⟩ := hd
  cases hs : stateAfter aesCcm serverNetworkKey packets with
  | none =>
    have hcipher : ∀ info', (none : Option UpdateInfo) = some info' → info'.cipher = aesCcm v.updateKey := by
      intro info' hinfo'
      cases hinfo'
    rcases h.turn_cases hv hcipher hv hd with ⟨info', _, hinfo', _⟩ | ⟨hprepares, hstep⟩ | hstep
    · cases hinfo'
    · exact .inr (.inl ⟨v, hv, hprepares, hstep⟩)
    · exact .inr (.inr hstep)
  | some info =>
    obtain ⟨before, p, since, u, hcut, hu, ht⟩ := hexplained info hs
    have hcipher : ∀ info', some info = some info' → info'.cipher = aesCcm u.updateKey := by
      intro info' hinfo'
      cases hinfo'
      exact ht.cipher
    rcases h.turn_cases hu hcipher hv hd with ⟨info', update, hinfo', hchunk, hreq⟩ | ⟨hprepares, hstep⟩ | hstep
    · cases hinfo'
      exact .inl ⟨before, p, since, u, info, update, hcut, hu, ht, hchunk, hreq⟩
    · exact .inr (.inl ⟨v, hv, hprepares, hstep⟩)
    · exact .inr (.inr hstep)

/-- **Whenever an update is active, the server has accepted the image of an update up to the offset it expects**,
since the packet that activated it. -/
theorem Delivery.explains (h : Delivery aesCcm updates serverNetworkKey) (packets : List Packet) :
    (∀ d ∈ packets, ∃ u ∈ updates, u.Prepares aesCcm d ∨ u.Updates aesCcm d) →
    ∀ info, stateAfter aesCcm serverNetworkKey packets = some info →
      Explains aesCcm updates serverNetworkKey packets info := by
  induction packets using List.reverseRecOn with
  | nil =>
    intro _ info hinfo
    cases hinfo
  | append_singleton packets d ih =>
    intro hpackets info' hinfo'
    have ih := ih (fun x hx => hpackets x (List.mem_append_left [d] hx))
    rw [stateAfter_concat] at hinfo'
    rcases h.turn ih (hpackets d (List.mem_append_right packets List.mem_cons_self)) with
      ⟨before, p, since, u, info, update, hcut, hu, ht, hchunk, hreq⟩ | ⟨v, hv, hprepares, hstep⟩ | hstep
    · -- a piece of the active update: only one at the expected offset leaves it active
      by_cases hoff : update.byteOffset.toNat = info.nextByteOffset
      · have hnext := (serverStep_accepted aesCcm serverNetworkKey hreq hoff).1
        rw [hinfo'] at hnext
        split at hnext
        · cases hnext
        · cases hnext
          refine ⟨before, p, since ++ [d], u, by rw [hcut, List.append_assoc]; rfl, hu, ?_⟩
          exact ht.accept hchunk (hcut ▸ hreq) hoff
      · rw [serverStep_abandoned aesCcm serverNetworkKey hreq hoff] at hinfo'
        cases hinfo'
    · have hevents : eventsAfter aesCcm serverNetworkKey packets [d]
          = [(serverStep aesCcm serverNetworkKey (stateAfter aesCcm serverNetworkKey packets) d).2] := rfl
      rw [hstep] at hinfo' hevents
      cases hinfo'
      exact ⟨packets, d, [], v, rfl, hv, hprepares, hevents, fun e he => absurd he List.not_mem_nil, rfl, rfl, rfl⟩
    · rw [hstep] at hinfo'
      obtain ⟨before, p, since, u, hcut, hu, ht⟩ := ih info' hinfo'
      refine ⟨before, p, since ++ [d], u, by rw [hcut, List.append_assoc]; rfl, hu, ?_⟩
      exact ht.concat (e := .ignored) (by rw [← hcut, hstep]) rfl rfl rfl (List.append_nil _)

/-- **At the end of an update the server has accepted its image**: the pieces accepted since the activation are the
whole image of the update that was activated. -/
theorem Delivery.finished (h : Delivery aesCcm updates serverNetworkKey) {front : List Packet} {d : Packet}
    (hfront : ∀ d ∈ front, ∃ u ∈ updates, u.Prepares aesCcm d ∨ u.Updates aesCcm d)
    (hd : ∃ u ∈ updates, u.Prepares aesCcm d ∨ u.Updates aesCcm d) {update : Update UPDATE_BYTES_SIZE}
    (hend : (serverStep aesCcm serverNetworkKey (stateAfter aesCcm serverNetworkKey front) d).2
      = .update update .finished) :
    ∃ before p since u info, front = before ++ p :: since ∧ u ∈ updates ∧
      Tracks aesCcm serverNetworkKey before p (since ++ [d]) u info ∧ info.nextByteOffset = u.image.length := by
  rcases h.turn (h.explains front hfront) hd with
    ⟨before, p, since, u, info, update', hcut, hu, ht, hchunk, hreq⟩ | ⟨v, -, -, hstep⟩ | hstep
  · rw [serverStep_of_active aesCcm serverNetworkKey hreq] at hend
    by_cases hoff : update'.byteOffset.toNat = info.nextByteOffset
    · obtain ⟨outcome, -, hprocess, hlast⟩ := processActiveUpdate_accepted hoff
      rw [hprocess] at hend
      have hfinished : outcome = .finished := (Event.update.inj hend).2
      refine ⟨before, p, since, u, _, hcut, hu, ht.accept hchunk (hcut ▸ hreq) hoff, ?_⟩
      rw [← ht.byteLen]
      exact hlast.1 hfinished
    · rw [processActiveUpdate_abandoned hoff] at hend
      cases hend
  · rw [hstep] at hend
    cases hend
  · rw [hstep] at hend
    cases hend

/-- Once no update is active, none is until one is activated. -/
theorem stateAfter_none {front : List Packet} (h : stateAfter aesCcm serverNetworkKey front = none) :
    ∀ mid : List Packet, (∀ x ∈ eventsAfter aesCcm serverNetworkKey front mid, x.isActivated = false) →
      stateAfter aesCcm serverNetworkKey (front ++ mid) = none := by
  intro mid
  induction mid using List.reverseRecOn with
  | nil =>
    intro _
    rw [List.append_nil, h]
  | append_singleton mid d ih =>
    intro hquiet
    rw [eventsAfter_concat] at hquiet
    have hmid := ih (fun x hx => hquiet x (List.mem_append_left _ hx))
    have hd := hquiet _ (List.mem_append_right _ List.mem_cons_self)
    rw [← List.append_assoc, stateAfter_concat]
    rw [hmid] at hd ⊢
    exact (serverStep_none aesCcm serverNetworkKey d).2 hd

/-- **Update integrity over any delivery.**  Whatever packets of the updates a server receives, in whatever order: when
it reports an update as finished, the bytes it accepted since the last activation are the image of the update whose
prepare packet activated it; and after a piece of the active update with an unexpected offset it accepts nothing until
an update is activated again. -/
theorem update_integrity (h : Delivery aesCcm updates serverNetworkKey) (packets : List Packet)
    (hpackets : ∀ d ∈ packets, ∃ u ∈ updates, u.Prepares aesCcm d ∨ u.Updates aesCcm d) :
    (∀ front d back, packets = front ++ d :: back →
      ∀ update, eventsAfter aesCcm serverNetworkKey front [d] = [.update update .finished] →
      ∃ before p since u, front = before ++ p :: since ∧ u ∈ updates ∧ u.Prepares aesCcm p ∧
        eventsAfter aesCcm serverNetworkKey before [p]
          = [.activated (prepareForUpdate u.updateKey u.image.length)] ∧
        (∀ e ∈ eventsAfter aesCcm serverNetworkKey (before ++ [p]) (since ++ [d]), e.isActivated = false) ∧
        acceptedBytes (eventsAfter aesCcm serverNetworkKey (before ++ [p]) (since ++ [d])) = u.image) ∧
    (∀ front d back, packets = front ++ d :: back →
      ∀ info update, stateAfter aesCcm serverNetworkKey front = some info →
      processClientUpdateRequest UPDATE_BYTES_SIZE info.cipher d = .ok (some update) →
      update.byteOffset.toNat ≠ info.nextByteOffset →
      ∀ mid e rest, back = mid ++ e :: rest →
        (∀ x ∈ eventsAfter aesCcm serverNetworkKey (front ++ [d]) mid, x.isActivated = false) →
        ∀ x ∈ eventsAfter aesCcm serverNetworkKey (front ++ d :: mid) [e], x.accepted = none) := by
  constructor
  · rintro front d back rfl update hend
    have hfront : ∀ x ∈ front, ∃ u ∈ updates, u.Prepares aesCcm x ∨ u.Updates aesCcm x :=
      fun x hx => hpackets x (List.mem_append_left _ hx)
    have hd := hpackets d (List.mem_append_right front List.mem_cons_self)
    obtain ⟨before, p, since, u, info, hcut, hu, ht, hlast⟩ := h.finished hfront hd (List.cons.inj hend).1
    refine ⟨before, p, since, u, hcut, hu, ht.prepares, ht.activated, ht.quiet, ?_⟩
    rw [ht.accepted, hlast, List.take_length]
  · rintro front d back rfl info update hs hreq hoff mid e rest - hquiet x hx
    have hdrop : stateAfter aesCcm serverNetworkKey (front ++ [d]) = none := by
      have hactive := activeRequest_some hreq
      rw [stateAfter_concat, hs, serverStep_abandoned aesCcm serverNetworkKey hactive hoff]
    have hmid := stateAfter_none hdrop mid hquiet
    rw [List.append_assoc, List.singleton_append] at hmid
    have hx' := List.mem_singleton.1 hx
    rw [hx', hmid]
    exact (serverStep_none aesCcm serverNetworkKey e).1

end Run

/-! ### One small update

AES-CCM under the example's network key and under an update key, on the two packets of an update of three bytes;
elsewhere a tag of the key is appended. -/

structure Entry where
  nonce : Vector UInt8 NONCE_SIZE
  ad : List UInt8
  plain : List UInt8
  sealed : List UInt8

def lastFour (l : List UInt8) : List UInt8 := l.drop (l.length - 4)

def entryCipher (entry : Entry) (tag : List UInt8) : LinkCipher where
  encrypt nonce ad plain :=
    if nonce = entry.nonce ∧ ad = entry.ad ∧ plain = entry.plain then entry.sealed else plain ++ tag
  decrypt nonce ad sealed :=
    if nonce = entry.nonce ∧ ad = entry.ad ∧ sealed = entry.sealed then some entry.plain
    else if lastFour sealed = tag then some (sealed.take (sealed.length - 4)) else none

theorem lastFour_append (plain : List UInt8) {tag : List UInt8} (htag : tag.length = 4) :
    lastFour (plain ++ tag) = tag := by
  simp [lastFour, htag]

theorem entryCipher_lawful {entry : Entry} {tag : List UInt8} (htag : tag.length = 4)
    (hlen : entry.sealed.length = entry.plain.length + 4) (hlast : lastFour entry.sealed ≠ tag) :
    (entryCipher entry tag).Lawful where
  encrypt_length nonce ad plain := by
    simp only [entryCipher]
    split
    · rename_i h
      rw [h.2.2, hlen]
      rfl
    · rw [List.length_append, htag]
      rfl
  decrypt_encrypt nonce ad plain := by
    simp only [entryCipher]
    by_cases h : nonce = entry.nonce ∧ ad = entry.ad ∧ plain = entry.plain
    · rw [if_pos h, if_pos ⟨h.1, h.2.1, rfl⟩, h.2.2]
    · have hne : plain ++ tag ≠ entry.sealed := by
        intro heq
        rw [← heq, lastFour_append plain htag] at hlast
        exact hlast rfl
      rw [if_neg h, if_neg (fun hs => hne hs.2.2), if_pos (lastFour_append plain htag)]
      simp [htag]

theorem entryCipher_separate {entry entry' : Entry} {tag tag' : List UInt8} (htag : tag.length = 4)
    (hne : tag ≠ tag') (hsealed : entry.sealed ≠ entry'.sealed) (hlast : lastFour entry.sealed ≠ tag')
    (hlast' : lastFour entry'.sealed ≠ tag) (nonce : Vector UInt8 NONCE_SIZE) (ad plain : List UInt8) :
    (entryCipher entry' tag').decrypt nonce ad ((entryCipher entry tag).encrypt nonce ad plain) = none := by
  simp only [entryCipher]
  by_cases h : nonce = entry.nonce ∧ ad = entry.ad ∧ plain = entry.plain
  · rw [if_pos h, if_neg (fun hs => hsealed hs.2.2), if_neg hlast]
  · have hs : plain ++ tag ≠ entry'.sealed := by
      intro heq
      rw [← heq, lastFour_append plain htag] at hlast'
      exact hlast' rfl
    rw [if_neg h, if_neg (fun hs' => hs hs'.2.2), lastFour_append plain htag, if_neg hne]

/-- `b"0000000000000000"`. -/
def exampleServerKey : UpdateKey := Vector.replicate 16 48

def exampleUpdateKey : UpdateKey := #v[1, 2, 3, 4, 5, 6, 7, 8, 9, 10, 11, 12, 13, 14, 15, 16]

def exampleUpdate : ClientUpdate :=
  { servers := [(1, exampleServerKey)], updateKey := exampleUpdateKey, image := [7, 8, 9] }

def prepareEntry : Entry :=
  { nonce := newNonce (0, 0, 8, 0) 23, ad := [0, 0, 8, 0]
    plain := [1, 2, 3, 0, 4, 1, 2, 3, 4, 5, 6, 7, 8, 9, 10, 11, 12, 13, 14, 15, 16, 3, 0]
    sealed := [128, 64, 77, 38, 123, 62, 38, 65, 246, 106, 128, 172, 45, 17, 179, 230, 111, 33, 46, 153, 148, 251, 1, 215,
      63, 180, 242] }

def chunkEntry : Entry :=
  { nonce := newNonce (0, 1, 8, 0) 5, ad := [0, 1, 8, 0], plain := [0, 3, 7, 8, 9]
    sealed := [228, 250, 25, 175, 96, 240, 105, 4, 201] }

example : (AesCcm.new exampleServerKey).toCipher.encrypt prepareEntry.nonce prepareEntry.ad prepareEntry.plain
      = prepareEntry.sealed ∧
    (AesCcm.new exampleUpdateKey).toCipher.encrypt chunkEntry.nonce chunkEntry.ad chunkEntry.plain
      = chunkEntry.sealed := by decide +kernel

def exampleAesCcm (key : UpdateKey) : LinkCipher :=
  if key = exampleServerKey then entryCipher prepareEntry [0, 0, 0, 0] else entryCipher chunkEntry [1, 1, 1, 1]

def preparePacket : Packet :=
  #v[0, 0, 8, 0, 27, 128, 64, 77, 38, 123, 62, 38, 65, 246, 106, 128, 172, 45, 17, 179, 230, 111, 33, 46, 153, 148, 251, 1,
    215, 63, 180, 242, 0, 0, 0, 0, 0, 0, 0, 0, 0, 0]

def chunkPacket : Packet :=
  #v[0, 1, 8, 0, 9, 228, 250, 25, 175, 96, 240, 105, 4, 201, 106, 128, 172, 45, 17, 179, 230, 111, 33, 46, 153, 148, 251, 1,
    215, 63, 180, 242, 0, 0, 0, 0, 0, 0, 0, 0, 0, 0]

theorem exampleUpdate_sent : clientTask exampleAesCcm exampleUpdate.servers exampleUpdate.updateKey exampleUpdate.image
    = .ok ([⟨preparePacket, SERVER_REQUEST_RECEIVE_TIME⟩], [⟨chunkPacket, UPDATE_PROCESSING_TIME⟩]) := by
  decide +kernel

theorem exampleUpdate_prepares : exampleUpdate.Prepares exampleAesCcm preparePacket :=
  ⟨_, _, exampleUpdate_sent, List.mem_singleton.2 rfl⟩

theorem exampleUpdate_updates : exampleUpdate.Updates exampleAesCcm chunkPacket :=
  ⟨_, _, exampleUpdate_sent, List.mem_singleton.2 rfl⟩

theorem exampleUpdate_inUse {key : UpdateKey} (h : InUse [exampleUpdate] exampleServerKey key) :
    key = exampleServerKey ∨ key = exampleUpdateKey := by
  rcases h with h | ⟨u, hu, h | ⟨server, hserver, h⟩⟩
  · exact .inl h
  · rw [List.mem_singleton.1 hu] at h
    exact .inr h
  · rw [List.mem_singleton.1 hu] at hserver
    rw [List.mem_singleton.1 hserver] at h
    exact .inl h

theorem exampleUpdate_delivery : Delivery exampleAesCcm [exampleUpdate] exampleServerKey where
  lawful key := by
    unfold exampleAesCcm
    split
    · exact entryCipher_lawful rfl rfl (by decide)
    · exact entryCipher_lawful rfl rfl (by decide)
  separate key key' hkey hkey' hne := by
    have hupdate : exampleUpdateKey ≠ exampleServerKey := by decide
    rcases exampleUpdate_inUse hkey with rfl | rfl <;> rcases exampleUpdate_inUse hkey' with rfl | rfl
    · exact absurd rfl hne
    · rw [exampleAesCcm, exampleAesCcm, if_pos rfl, if_neg hupdate]
      exact entryCipher_separate rfl (by decide) (by decide) (by decide) (by decide)
    · rw [exampleAesCcm, exampleAesCcm, if_pos rfl, if_neg hupdate]
      exact entryCipher_separate rfl (by decide) (by decide) (by decide) (by decide)
    · exact absurd rfl hne
  own u hu v hv _ := by rw [List.mem_singleton.1 hu, List.mem_singleton.1 hv]
  fresh u hu := by
    rw [List.mem_singleton.1 hu]
    refine ⟨by decide, fun v hv server hserver => ?_⟩
    rw [List.mem_singleton.1 hv] at hserver
    rw [List.mem_singleton.1 hserver]
    decide
  short u hu := by
    rw [List.mem_singleton.1 hu]
    decide

/-- A piece before its time, the prepare packet twice, the piece, and a copy of it. -/
def examplePackets : List Packet := [chunkPacket, preparePacket, preparePacket, chunkPacket, chunkPacket]

theorem examplePackets_sent : ∀ d ∈ examplePackets, ∃ u ∈ [exampleUpdate],
    u.Prepares exampleAesCcm d ∨ u.Updates exampleAesCcm d := by
  intro d hd
  refine ⟨exampleUpdate, List.mem_singleton.2 rfl, ?_⟩
  simp only [examplePackets, List.mem_cons, List.not_mem_nil, or_false] at hd
  rcases hd with rfl | rfl | rfl | rfl | rfl
  · exact .inr exampleUpdate_updates
  · exact .inl exampleUpdate_prepares
  · exact .inl exampleUpdate_prepares
  · exact .inr exampleUpdate_updates
  · exact .inr exampleUpdate_updates

theorem update_integrity_three_bytes :
    Delivery exampleAesCcm [exampleUpdate] exampleServerKey ∧
    (∀ d ∈ examplePackets, ∃ u ∈ [exampleUpdate], u.Prepares exampleAesCcm d ∨ u.Updates exampleAesCcm d) ∧
    ∃ before p since u, [chunkPacket, preparePacket, preparePacket] = before ++ p :: since ∧ u ∈ [exampleUpdate] ∧
      u.Prepares exampleAesCcm p ∧
      acceptedBytes (eventsAfter exampleAesCcm exampleServerKey (before ++ [p]) (since ++ [chunkPacket])) = u.image := by
  have hend : eventsAfter exampleAesCcm exampleServerKey [chunkPacket, preparePacket, preparePacket] [chunkPacket]
      = [.update { byteOffset := 0, bytes := ⟨[7, 8, 9], by decide⟩ } .finished] := by decide +kernel
  obtain ⟨before, p, since, u, hcut, hu, hprepares, -, -, hbytes⟩ :=
    (update_integrity exampleUpdate_delivery examplePackets examplePackets_sent).1 _ _ [chunkPacket] rfl _ hend
  exact ⟨exampleUpdate_delivery, examplePackets_sent, before, p, since, u, hcut, hu, hprepares, hbytes⟩

end SoftwareUpdate
end FlipFlop
