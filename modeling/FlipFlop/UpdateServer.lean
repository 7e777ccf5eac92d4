import FlipFlop.Mealy
import FlipFlop.UpdateClient
/-!
# UpdateServer — the server of a software update (`data/examples/update/main.rs`, `mod server`)

`server::task` keeps at most one active update: its cipher, its length and the next offset it expects.  Each packet is
tried as a piece of the active update first, and as a prepare message after that.
-/
namespace FlipFlop
namespace SoftwareUpdate

open Rust Postcard
open Discovery (MIN_PACKET_SIZE MIN_PAYLOAD_SIZE)

structure UpdateInfo where
  cipher : LinkCipher
  byteLen : Nat
  nextByteOffset : Nat

def requestFilter (h : Header) : Bool := h.serverAddress == 0x00 && h.serverPort == 0x01 && h.source == .client

/-- What the two request processors have in common. -/
def processRequest {α : Type} [Serde α] (cipher : LinkCipher) (datagramBuf : Packet) : Except Panic (Option α) :=
  Discovery.processMessage cipher requestFilter datagramBuf

def processClientUpdateRequest (N : Nat) (cipher : LinkCipher) (datagramBuf : Packet) :
    Except Panic (Option (Update N)) :=
  processRequest cipher datagramBuf

def processClientPrepareForUpdateRequest (cipher : LinkCipher) (datagramBuf : Packet) :
    Except Panic (Option PrepareForUpdate) :=
  processRequest cipher datagramBuf

/-- The branches of `process_active_update`. -/
inductive Outcome
  | abandoned
  | finished
  | flushed
  | buffered
  deriving Repr, DecidableEq

/-- What the branch returns: whether the update is over. -/
def Outcome.returns : Outcome → Bool
  | .abandoned | .finished => true
  | .flushed | .buffered => false

def processActiveUpdate {N : Nat} (updateInfo : UpdateInfo) (update : Update N) : UpdateInfo × Outcome :=
  if update.byteOffset.toNat ≠ updateInfo.nextByteOffset then (updateInfo, .abandoned)
  else
    let updateInfo := { updateInfo with nextByteOffset := updateInfo.nextByteOffset + update.bytes.toList.length }
    if updateInfo.nextByteOffset = updateInfo.byteLen then (updateInfo, .finished)
    else if updateInfo.nextByteOffset % UPDATE_BYTES_PROCESSING_THRESHOLD = 0 then (updateInfo, .flushed)
    else (updateInfo, .buffered)

def currentVersion : Except Panic Version := unwrap (Version.fromStr "1.2.0".toList).toOption

/-- What one turn of the server's loop did. -/
inductive Event
  | update (update : Update UPDATE_BYTES_SIZE) (outcome : Outcome)
  | activated (prepareForUpdate : PrepareForUpdate)
  | ignored
  | panicked
  deriving Repr, DecidableEq

/-- First try processing an update request for an active update. -/
def activeRequest (activeUpdateInfo : Option UpdateInfo) (encryptedPayload : Packet) :
    Except Panic (Option (UpdateInfo × Update UPDATE_BYTES_SIZE)) :=
  match activeUpdateInfo with
  | some updateInfo => do
    let update ← processClientUpdateRequest UPDATE_BYTES_SIZE updateInfo.cipher encryptedPayload
    return update.map (fun update => (updateInfo, update))
  | none => .ok none

section Server

variable (aesCcm : UpdateKey → LinkCipher)

def activateUpdateIfNewVersion (prepareForUpdate : PrepareForUpdate) (currentVersion : Version) : Option UpdateInfo :=
  if prepareForUpdate.version.cmp currentVersion = .gt then
    some { cipher := aesCcm prepareForUpdate.updateKey, byteLen := prepareForUpdate.updateByteLen.toNat
           nextByteOffset := 0 }
  else none

/-- One turn of the loop of `server::task`. -/
def serverTask (serverNetworkKey : UpdateKey) (activeUpdateInfo : Option UpdateInfo) (encryptedPayload : Packet) :
    Except Panic (Option UpdateInfo × Event) := do
  let currentVersion ← currentVersion
  match ← activeRequest activeUpdateInfo encryptedPayload with
  | some (updateInfo, update) =>
    let (updateInfo, outcome) := processActiveUpdate updateInfo update
    return (if outcome.returns then none else some updateInfo, .update update outcome)
  | none =>
    match ← processClientPrepareForUpdateRequest (aesCcm serverNetworkKey) encryptedPayload with
    | some prepareForUpdate =>
      match activateUpdateIfNewVersion aesCcm prepareForUpdate currentVersion with
      | some newActiveUpdateInfo => return (some newActiveUpdateInfo, .activated prepareForUpdate)
      | none => return (activeUpdateInfo, .ignored)
    | none => return (activeUpdateInfo, .ignored)

def serverStep (serverNetworkKey : UpdateKey) (activeUpdateInfo : Option UpdateInfo) (encryptedPayload : Packet) :
    Option UpdateInfo × Event :=
  match serverTask aesCcm serverNetworkKey activeUpdateInfo encryptedPayload with
  | .ok result => result
  | .error _ => (activeUpdateInfo, .panicked)

end Server

/-! ## The request processors -/

theorem requestFilter_requestHeader (frameCounter : UInt16) : requestFilter (requestHeader frameCounter) = true := rfl

theorem serverPort_requestHeader (frameCounter : UInt16) : (requestHeader frameCounter).serverPort ≤ 7 :=
  (by decide : (1 : UInt8) ≤ 7)

theorem processRequest_total {α : Type} [Serde α] (cipher : LinkCipher) (datagramBuf : Packet) :
    ∃ message, processRequest (α := α) cipher datagramBuf = .ok message :=
  Discovery.processMessage_total cipher requestFilter datagramBuf

theorem Carries.processRequest {α : Type} [Serde α] {cipher : LinkCipher} (hc : cipher.Lawful) {message : α}
    {datagram : Packet} (h : Carries cipher message datagram) (hde : fromBytes (ser message) = .ok message) :
    processRequest cipher datagram = .ok (some message) := by
  obtain ⟨frameCounter, hframe⟩ := h.frame
  unfold Frames at hframe
  exact hframe.processMessage hc h.fits rfl (serverPort_requestHeader frameCounter)
    (requestFilter_requestHeader frameCounter) hde

theorem Carries.processRequest_none {α β : Type} [Serde α] [Serde β] {cipher cipher' : LinkCipher}
    (hc : cipher.Lawful) {message : α} {datagram : Packet} (h : Carries cipher message datagram)
    (hsep : ∀ nonce ad plain, cipher'.decrypt nonce ad (cipher.encrypt nonce ad plain) = none) :
    SoftwareUpdate.processRequest (α := β) cipher' datagram = .ok none := by
  obtain ⟨frameCounter, hframe⟩ := h.frame
  unfold Frames at hframe
  exact hframe.processMessage_none hc h.fits rfl (serverPort_requestHeader frameCounter)
    (requestFilter_requestHeader frameCounter) hsep

/-! ## One turn -/

theorem processActiveUpdate_abandoned {N : Nat} {info : UpdateInfo} {update : Update N}
    (h : update.byteOffset.toNat ≠ info.nextByteOffset) : processActiveUpdate info update = (info, .abandoned) :=
  if_pos h

/-- **A piece at the expected offset is accepted**, and ends the update exactly when it reaches the length. -/
theorem processActiveUpdate_accepted {N : Nat} {info : UpdateInfo} {update : Update N}
    (h : update.byteOffset.toNat = info.nextByteOffset) : ∃ outcome, outcome ≠ .abandoned ∧
      processActiveUpdate info update
        = ({ info with nextByteOffset := info.nextByteOffset + update.bytes.toList.length }, outcome) ∧
      (outcome = .finished ↔ info.nextByteOffset + update.bytes.toList.length = info.byteLen) := by
  unfold processActiveUpdate
  rw [if_neg (fun hne => hne h)]
  simp only
  split
  · rename_i hlast
    exact ⟨.finished, by decide, rfl, fun _ => hlast, fun _ => rfl⟩
  · rename_i hlast
    split
    · exact ⟨.flushed, by decide, rfl, fun hf => (by cases hf), fun hf => absurd hf hlast⟩
    · exact ⟨.buffered, by decide, rfl, fun hf => (by cases hf), fun hf => absurd hf hlast⟩

theorem currentVersion_eq : currentVersion = .ok { major := 1, minor := 2, patch := 0, pre := none } := by decide

section Turn

variable {aesCcm : UpdateKey → LinkCipher} {serverNetworkKey : UpdateKey} {active : Option UpdateInfo}
  {datagram : Packet}

variable (aesCcm serverNetworkKey) in
theorem serverStep_of_active {info : UpdateInfo} {update : Update UPDATE_BYTES_SIZE}
    (h : activeRequest active datagram = .ok (some (info, update))) :
    serverStep aesCcm serverNetworkKey active datagram
      = (if (processActiveUpdate info update).2.returns then none else some (processActiveUpdate info update).1,
          .update update (processActiveUpdate info update).2) := by
  simp only [serverStep, serverTask, currentVersion_eq, h, bind, Except.bind]
  rfl

theorem serverStep_of_prepare {prepare : PrepareForUpdate} (h : activeRequest active datagram = .ok none)
    (hp : processClientPrepareForUpdateRequest (aesCcm serverNetworkKey) datagram = .ok (some prepare))
    (hnew : prepare.version.cmp { major := 1, minor := 2, patch := 0, pre := none } = .gt) :
    serverStep aesCcm serverNetworkKey active datagram
      = (some { cipher := aesCcm prepare.updateKey, byteLen := prepare.updateByteLen.toNat, nextByteOffset := 0 },
          .activated prepare) := by
  simp only [serverStep, serverTask, currentVersion_eq, h, hp, bind, Except.bind, activateUpdateIfNewVersion, hnew,
    if_true]
  rfl

theorem serverStep_of_none (h : activeRequest active datagram = .ok none)
    (hp : processClientPrepareForUpdateRequest (aesCcm serverNetworkKey) datagram = .ok none) :
    serverStep aesCcm serverNetworkKey active datagram = (active, .ignored) := by
  simp only [serverStep, serverTask, currentVersion_eq, h, hp, bind, Except.bind]
  rfl

theorem serverStep_of_old {prepare : PrepareForUpdate} (h : activeRequest active datagram = .ok none)
    (hp : processClientPrepareForUpdateRequest (aesCcm serverNetworkKey) datagram = .ok (some prepare))
    (hold : ¬ prepare.version.cmp { major := 1, minor := 2, patch := 0, pre := none } = .gt) :
    serverStep aesCcm serverNetworkKey active datagram = (active, .ignored) := by
  simp only [serverStep, serverTask, currentVersion_eq, h, hp, bind, Except.bind, activateUpdateIfNewVersion, if_neg hold]
  rfl

theorem activeRequest_some {info : UpdateInfo} {update : Option (Update UPDATE_BYTES_SIZE)}
    (h : processClientUpdateRequest UPDATE_BYTES_SIZE info.cipher datagram = .ok update) :
    activeRequest (some info) datagram = .ok (update.map (fun update => (info, update))) := by
  simp only [activeRequest, h, bind, Except.bind]
  rfl

theorem activeRequest_total (active : Option UpdateInfo) (datagram : Packet) :
    activeRequest active datagram = .ok none ∨
      ∃ info update, active = some info ∧ activeRequest active datagram = .ok (some (info, update)) := by
  cases active with
  | none => exact .inl rfl
  | some info =>
    obtain ⟨update, hupdate⟩ := processRequest_total (α := Update UPDATE_BYTES_SIZE) info.cipher datagram
    have hrequest := activeRequest_some hupdate
    cases update with
    | none => exact .inl hrequest
    | some update => exact .inr ⟨info, update, rfl, hrequest⟩

variable (aesCcm serverNetworkKey active datagram) in
/-- **What a turn can do**: take a piece of the active update, activate the update a prepare message announces, or
nothing. -/
theorem serverStep_cases :
    (∃ info update, active = some info ∧ activeRequest active datagram = .ok (some (info, update))) ∨
    (∃ prepare : PrepareForUpdate, activeRequest active datagram = .ok none ∧
      processClientPrepareForUpdateRequest (aesCcm serverNetworkKey) datagram = .ok (some prepare) ∧
      prepare.version.cmp { major := 1, minor := 2, patch := 0, pre := none } = .gt) ∨
    (serverStep aesCcm serverNetworkKey active datagram = (active, .ignored) ∧
      activeRequest active datagram = .ok none ∧ ∀ prepare : PrepareForUpdate,
        processClientPrepareForUpdateRequest (aesCcm serverNetworkKey) datagram = .ok (some prepare) →
        ¬ prepare.version.cmp { major := 1, minor := 2, patch := 0, pre := none } = .gt) := by
  rcases activeRequest_total active datagram with hrequest | hpiece
  · obtain ⟨answer, hanswer⟩ := processRequest_total (α := PrepareForUpdate) (aesCcm serverNetworkKey) datagram
    have honly : ∀ prepare : PrepareForUpdate,
        processClientPrepareForUpdateRequest (aesCcm serverNetworkKey) datagram = .ok (some prepare) →
        answer = some prepare := fun prepare h => Except.ok.inj (hanswer.symm.trans h)
    cases answer with
    | none => exact .inr (.inr ⟨serverStep_of_none hrequest hanswer, hrequest, fun prepare h => by cases honly prepare h⟩)
    | some prepare =>
      by_cases hnew : prepare.version.cmp { major := 1, minor := 2, patch := 0, pre := none } = .gt
      · exact .inr (.inl ⟨prepare, hrequest, hanswer, hnew⟩)
      · refine .inr (.inr ⟨serverStep_of_old hrequest hanswer hnew, hrequest, fun other h => ?_⟩)
        cases honly other h
        exact hnew
  · exact .inl hpiece

def Event.isActivated : Event → Bool
  | .activated _ => true
  | _ => false

/-- The bytes a turn accepted, if it did accept a piece. -/
def Event.accepted : Event → Option (List UInt8)
  | .update _ .abandoned => none
  | .update u _ => some u.bytes.toList
  | _ => none

theorem Event.accepted_update {outcome : Outcome} (h : outcome ≠ .abandoned) (update : Update UPDATE_BYTES_SIZE) :
    (Event.update update outcome).accepted = some update.bytes.toList := by
  cases outcome with
  | abandoned => exact absurd rfl h
  | finished => rfl
  | flushed => rfl
  | buffered => rfl

variable (aesCcm serverNetworkKey) in
theorem serverStep_abandoned {info : UpdateInfo} {update : Update UPDATE_BYTES_SIZE}
    (h : activeRequest active datagram = .ok (some (info, update)))
    (hoff : update.byteOffset.toNat ≠ info.nextByteOffset) :
    serverStep aesCcm serverNetworkKey active datagram = (none, .update update .abandoned) := by
  rw [serverStep_of_active aesCcm serverNetworkKey h, processActiveUpdate_abandoned hoff]
  rfl

variable (aesCcm serverNetworkKey) in
/-- The turn that accepts a piece: the update is over if that was its last byte, and the piece counts as accepted. -/
theorem serverStep_accepted {info : UpdateInfo} {update : Update UPDATE_BYTES_SIZE}
    (h : activeRequest active datagram = .ok (some (info, update)))
    (hoff : update.byteOffset.toNat = info.nextByteOffset) :
    (serverStep aesCcm serverNetworkKey active datagram).1
      = (if info.nextByteOffset + update.bytes.toList.length = info.byteLen then none
        else some { info with nextByteOffset := info.nextByteOffset + update.bytes.toList.length }) ∧
    (serverStep aesCcm serverNetworkKey active datagram).2.isActivated = false ∧
    (serverStep aesCcm serverNetworkKey active datagram).2.accepted = some update.bytes.toList := by
  obtain ⟨outcome, hkept, hprocess, hlast⟩ := processActiveUpdate_accepted hoff
  rw [serverStep_of_active aesCcm serverNetworkKey h, hprocess]
  refine ⟨?_, rfl, Event.accepted_update hkept update⟩
  by_cases hend : info.nextByteOffset + update.bytes.toList.length = info.byteLen
  · rw [if_pos hend, hlast.2 hend]
    rfl
  · have hmore : outcome.returns = false := by
      cases outcome with
      | abandoned => exact absurd rfl hkept
      | finished => exact absurd (hlast.1 rfl) hend
      | flushed => rfl
      | buffered => rfl
    rw [if_neg hend]
    simp only [hmore]
    rfl

variable (aesCcm serverNetworkKey datagram) in
/-- Without an active update a turn accepts nothing, and leaves no active update unless it activates one. -/
theorem serverStep_none :
    (serverStep aesCcm serverNetworkKey none datagram).2.accepted = none ∧
    ((serverStep aesCcm serverNetworkKey none datagram).2.isActivated = false →
      (serverStep aesCcm serverNetworkKey none datagram).1 = none) := by
  rcases serverStep_cases aesCcm serverNetworkKey none datagram with
    ⟨info, update, hactive, -⟩ | ⟨prepare, hrequest, hprepare, hnew⟩ | ⟨hstep, -⟩
  · cases hactive
  · rw [serverStep_of_prepare hrequest hprepare hnew]
    exact ⟨rfl, fun h => by cases h⟩
  · rw [hstep]
    exact ⟨rfl, fun _ => rfl⟩

end Turn

end SoftwareUpdate
end FlipFlop
