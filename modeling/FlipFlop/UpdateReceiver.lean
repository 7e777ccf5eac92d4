import FlipFlop.UpdateRun
import FlipFlop.UpdateTransfer
/-!
# UpdateReceiver — when a server finishes an update

Of the packets a server receives, whatever they are, only two kinds make a difference while an update is active: the
pieces its cipher opens, and the prepare messages of newer versions.  `finished_iff` says of every run which packets end
an update: the pieces since the activation start each where the last ended, and this one ends at the length announced.
So an update whose pieces all arrive, in order, completes among any other traffic that announces nothing
(`update_completes`).
-/
namespace FlipFlop
namespace SoftwareUpdate

open Rust Postcard
open Discovery (MIN_PACKET_SIZE MIN_PAYLOAD_SIZE)

/-- The piece a packet is to a cipher. -/
def pieceOf (cipher : LinkCipher) (datagram : Packet) : Option (Update UPDATE_BYTES_SIZE) :=
  match processClientUpdateRequest UPDATE_BYTES_SIZE cipher datagram with
  | .ok update => update
  | .error _ => none

/-- What a packet announces to a server, if that is newer than what it runs. -/
def announcedBy (networkCipher : LinkCipher) (datagram : Packet) : Option PrepareForUpdate :=
  match processClientPrepareForUpdateRequest networkCipher datagram with
  | .ok (some prepare) =>
    if prepare.version.cmp { major := 1, minor := 2, patch := 0, pre := none } = .gt then some prepare else none
  | _ => none

/-- Where pieces lead that start each where the last ended, none of them ending at `byteLen`. -/
def advance (byteLen : Nat) : Nat → List (Update UPDATE_BYTES_SIZE) → Option Nat
  | nextByteOffset, [] => some nextByteOffset
  | nextByteOffset, update :: updates =>
    if update.byteOffset.toNat = nextByteOffset ∧ nextByteOffset + update.bytes.toList.length ≠ byteLen then
      advance byteLen (nextByteOffset + update.bytes.toList.length) updates
    else none

theorem advance_concat (byteLen : Nat) (update : Update UPDATE_BYTES_SIZE) :
    ∀ (updates : List (Update UPDATE_BYTES_SIZE)) (n : Nat), advance byteLen n (updates ++ [update])
      = (advance byteLen n updates).bind (fun m => advance byteLen m [update])
  | [], _ => rfl
  | first :: updates, n => by
    rw [List.cons_append, advance, advance]
    split
    · exact advance_concat byteLen update updates _
    · rfl

theorem advance_singleton {byteLen n m : Nat} {update : Update UPDATE_BYTES_SIZE} :
    advance byteLen n [update] = some m ↔ update.byteOffset.toNat = n ∧
      n + update.bytes.toList.length ≠ byteLen ∧ n + update.bytes.toList.length = m := by
  rw [advance]
  split
  · rename_i h
    rw [advance, Option.some.injEq]
    exact ⟨fun hm => ⟨h.1, h.2, hm⟩, fun hm => hm.2.2⟩
  · rename_i h
    exact ⟨fun hm => (by cases hm), fun hm => absurd ⟨hm.1, hm.2.1⟩ h⟩

section Server

variable (aesCcm : UpdateKey → LinkCipher) (serverNetworkKey : UpdateKey)

/-- The active update that `prepare` announced, `nextByteOffset` bytes of which have been accepted. -/
def activeAt (prepare : PrepareForUpdate) (nextByteOffset : Nat) : UpdateInfo :=
  { cipher := aesCcm prepare.updateKey, byteLen := prepare.updateByteLen.toNat, nextByteOffset }

variable {aesCcm serverNetworkKey} {active : Option UpdateInfo} {datagram : Packet}

/-! ## One turn, by what the packet is -/

theorem activeRequest_of_pieceOf {info : UpdateInfo} :
    activeRequest (some info) datagram = .ok ((pieceOf info.cipher datagram).map (fun update => (info, update))) := by
  obtain ⟨update, hupdate⟩ := processRequest_total (α := Update UPDATE_BYTES_SIZE) info.cipher datagram
  have hupdate' : processClientUpdateRequest UPDATE_BYTES_SIZE info.cipher datagram = .ok update := hupdate
  rw [activeRequest_some hupdate', pieceOf, hupdate']

variable (aesCcm serverNetworkKey) in
/-- A packet that is no piece of what is active is looked at as a prepare message. -/
theorem serverStep_of_announcedBy (h : activeRequest active datagram = .ok none) :
    serverStep aesCcm serverNetworkKey active datagram =
      ((announcedBy (aesCcm serverNetworkKey) datagram).elim active (fun prepare => some (activeAt aesCcm prepare 0)),
        (announcedBy (aesCcm serverNetworkKey) datagram).elim .ignored .activated) := by
  obtain ⟨prepare, hprepare⟩ := processRequest_total (α := PrepareForUpdate) (aesCcm serverNetworkKey) datagram
  have hprepare' : processClientPrepareForUpdateRequest (aesCcm serverNetworkKey) datagram = .ok prepare := hprepare
  cases prepare with
  | none =>
    rw [serverStep_of_none h hprepare', announcedBy, hprepare']
    rfl
  | some prepare =>
    by_cases hnew : prepare.version.cmp { major := 1, minor := 2, patch := 0, pre := none } = .gt
    · rw [serverStep_of_prepare h hprepare' hnew, announcedBy, hprepare']
      simp only [if_pos hnew]
      rfl
    · rw [serverStep_of_old h hprepare' hnew, announcedBy, hprepare']
      simp only [if_neg hnew]
      rfl

variable (aesCcm serverNetworkKey) in
/-- What is neither a piece nor announces anything is ignored. -/
theorem serverStep_ignored (h : activeRequest active datagram = .ok none)
    (halone : announcedBy (aesCcm serverNetworkKey) datagram = none) :
    serverStep aesCcm serverNetworkKey active datagram = (active, .ignored) := by
  rw [serverStep_of_announcedBy aesCcm serverNetworkKey h, halone]
  rfl

theorem activeRequest_of_piece (info : UpdateInfo) {update : Update UPDATE_BYTES_SIZE}
    (h : pieceOf info.cipher datagram = some update) :
    activeRequest (some info) datagram = .ok (some (info, update)) := by
  rw [activeRequest_of_pieceOf, h]
  rfl

theorem pieceOf_of_activeRequest {info : UpdateInfo} {update : Update UPDATE_BYTES_SIZE}
    (h : activeRequest (some info) datagram = .ok (some (info, update))) :
    pieceOf info.cipher datagram = some update := by
  rw [activeRequest_of_pieceOf, Except.ok.injEq, Option.map_eq_some_iff] at h
  obtain ⟨update', hopen, heq⟩ := h
  cases heq
  exact hopen

theorem activeRequest_of_no_piece {info : UpdateInfo} (h : pieceOf info.cipher datagram = none) :
    activeRequest (some info) datagram = .ok none := by
  rw [activeRequest_of_pieceOf, h]
  rfl

/-- The piece expected moves the offset on, or ends the update. -/
theorem serverStep_expected {prepare : PrepareForUpdate} {n : Nat} {update : Update UPDATE_BYTES_SIZE}
    (h : pieceOf (aesCcm prepare.updateKey) datagram = some update) (hoff : update.byteOffset.toNat = n) :
    (serverStep aesCcm serverNetworkKey (some (activeAt aesCcm prepare n)) datagram).1
      = if n + update.bytes.toList.length = prepare.updateByteLen.toNat then none
        else some (activeAt aesCcm prepare (n + update.bytes.toList.length)) :=
  (serverStep_accepted aesCcm serverNetworkKey (activeRequest_of_piece (activeAt aesCcm prepare n) h) hoff).1

/-- The piece that reaches the length announced finishes the update. -/
theorem serverStep_finished {prepare : PrepareForUpdate} {n : Nat} {update : Update UPDATE_BYTES_SIZE}
    (h : pieceOf (aesCcm prepare.updateKey) datagram = some update) (hoff : update.byteOffset.toNat = n)
    (hend : n + update.bytes.toList.length = prepare.updateByteLen.toNat) :
    (serverStep aesCcm serverNetworkKey (some (activeAt aesCcm prepare n)) datagram).2 = .update update .finished := by
  obtain ⟨outcome, -, hprocess, hlast⟩ :=
    processActiveUpdate_accepted (show _ = (activeAt aesCcm prepare n).nextByteOffset from hoff)
  have hpiece := activeRequest_of_piece (activeAt aesCcm prepare n) h
  rw [serverStep_of_active aesCcm serverNetworkKey hpiece, hprocess, hlast.2 hend]

/-- A turn that activates an update starts it. -/
theorem activated_of_serverStep {prepare : PrepareForUpdate}
    (h : (serverStep aesCcm serverNetworkKey active datagram).2 = .activated prepare) :
    serverStep aesCcm serverNetworkKey active datagram = (some (activeAt aesCcm prepare 0), .activated prepare) := by
  rcases activeRequest_total active datagram with hnone | ⟨info, update, -, hpiece⟩
  · rw [serverStep_of_announcedBy aesCcm serverNetworkKey hnone] at h ⊢
    cases hp : announcedBy (aesCcm serverNetworkKey) datagram with
    | none =>
      rw [hp] at h
      cases h
    | some other =>
      rw [hp] at h
      cases h
      rfl
  · rw [serverStep_of_active aesCcm serverNetworkKey hpiece] at h
    cases h

/-! ## Whole runs -/

/-- After the packet `p` activated the update `prepare` announces, `since` holds no other announcement, and pieces that
lead to `n`. -/
structure Session (aesCcm : UpdateKey → LinkCipher) (serverNetworkKey : UpdateKey) (before : List Packet) (p : Packet)
    (since : List Packet) (prepare : PrepareForUpdate) (n : Nat) : Prop where
  activated : eventsAfter aesCcm serverNetworkKey before [p] = [.activated prepare]
  alone : ∀ d ∈ since, pieceOf (aesCcm prepare.updateKey) d = none → announcedBy (aesCcm serverNetworkKey) d = none
  advance : advance prepare.updateByteLen.toNat 0 (since.filterMap (pieceOf (aesCcm prepare.updateKey))) = some n

theorem eventsAfter_singleton (packets : List Packet) (d : Packet) :
    eventsAfter aesCcm serverNetworkKey packets [d]
      = [(serverStep aesCcm serverNetworkKey (stateAfter aesCcm serverNetworkKey packets) d).2] := rfl

/-- **The state a session leads to.** -/
theorem Session.stateAfter {before since : List Packet} {p : Packet} {prepare : PrepareForUpdate} {n : Nat}
    (h : Session aesCcm serverNetworkKey before p since prepare n) :
    stateAfter aesCcm serverNetworkKey (before ++ p :: since) = some (activeAt aesCcm prepare n) := by
  obtain ⟨hactivated, halone, hadvance⟩ := h
  induction since using List.reverseRecOn generalizing n with
  | nil =>
    have hn : 0 = n := Option.some.inj hadvance
    rw [eventsAfter_singleton] at hactivated
    rw [stateAfter_concat, activated_of_serverStep (List.cons.inj hactivated).1, hn]
  | append_singleton since d ih =>
    have halone' : ∀ x ∈ since, pieceOf (aesCcm prepare.updateKey) x = none →
        announcedBy (aesCcm serverNetworkKey) x = none := fun x hx => halone x (List.mem_append_left _ hx)
    have hcut : before ++ p :: (since ++ [d]) = (before ++ p :: since) ++ [d] := by simp
    rw [List.filterMap_append] at hadvance
    rw [hcut, stateAfter_concat]
    cases hd : pieceOf (aesCcm prepare.updateKey) d with
    | none =>
      rw [List.filterMap_cons_none hd, List.filterMap_nil, List.append_nil] at hadvance
      rw [ih halone' hadvance, serverStep_ignored aesCcm serverNetworkKey (activeRequest_of_no_piece hd)
        (halone d (List.mem_append_right _ List.mem_cons_self) hd)]
    | some update =>
      rw [List.filterMap_cons_some hd, List.filterMap_nil, advance_concat, Option.bind_eq_some_iff] at hadvance
      obtain ⟨m, hm, hlast⟩ := hadvance
      obtain ⟨hoff, hmore, hn⟩ := advance_singleton.1 hlast
      rw [ih halone' hm, serverStep_expected hd hoff, if_neg hmore, hn]

/-- A session goes on with a packet that neither starts another nor ends it. -/
theorem Session.concat {before since : List Packet} {p d : Packet} {prepare : PrepareForUpdate} {n m : Nat}
    (h : Session aesCcm serverNetworkKey before p since prepare n)
    (halone : pieceOf (aesCcm prepare.updateKey) d = none → announcedBy (aesCcm serverNetworkKey) d = none)
    (hadvance : SoftwareUpdate.advance prepare.updateByteLen.toNat n (pieceOf (aesCcm prepare.updateKey) d).toList
      = some m) : Session aesCcm serverNetworkKey before p (since ++ [d]) prepare m where
  activated := h.activated
  alone := fun x hx => by
    rcases List.mem_append.1 hx with hx | hx
    · exact h.alone x hx
    · rw [List.mem_singleton.1 hx]
      exact halone
  advance := by
    rw [List.filterMap_append]
    cases hd : pieceOf (aesCcm prepare.updateKey) d with
    | none =>
      rw [hd] at hadvance
      rw [List.filterMap_cons_none hd, List.filterMap_nil, List.append_nil, h.advance]
      exact hadvance
    | some update =>
      rw [hd] at hadvance
      rw [List.filterMap_cons_some hd, List.filterMap_nil, advance_concat, h.advance]
      exact hadvance

/-- A packet that is looked at as a prepare message, and announces an update, starts a session. -/
theorem session_started {packets : List Packet} {d : Packet} {prepare : PrepareForUpdate}
    (hnone : activeRequest (SoftwareUpdate.stateAfter aesCcm serverNetworkKey packets) d = .ok none)
    (hp : announcedBy (aesCcm serverNetworkKey) d = some prepare) :
    Session aesCcm serverNetworkKey packets d [] prepare 0 ∧
    stateAfter aesCcm serverNetworkKey (packets ++ [d]) = some (activeAt aesCcm prepare 0) := by
  have hstep := serverStep_of_announcedBy aesCcm serverNetworkKey hnone
  rw [hp] at hstep
  refine ⟨⟨?_, fun x hx => absurd hx List.not_mem_nil, rfl⟩, ?_⟩
  · rw [eventsAfter_singleton, hstep]
    rfl
  · rw [stateAfter_concat, hstep]
    rfl

/-- A piece that leaves the update active prolongs its session. -/
theorem Session.next {before since : List Packet} {p d : Packet} {prepare : PrepareForUpdate} {n : Nat}
    (h : Session aesCcm serverNetworkKey before p since prepare n) {update : Update UPDATE_BYTES_SIZE}
    (hd : pieceOf (aesCcm prepare.updateKey) d = some update) {info : UpdateInfo}
    (hinfo : (serverStep aesCcm serverNetworkKey (some (activeAt aesCcm prepare n)) d).1 = some info) :
    ∃ m, Session aesCcm serverNetworkKey before p (since ++ [d]) prepare m ∧ info = activeAt aesCcm prepare m := by
  by_cases hoff : update.byteOffset.toNat = n
  · rw [serverStep_expected hd hoff] at hinfo
    split at hinfo
    · cases hinfo
    · rename_i hmore
      refine ⟨n + update.bytes.toList.length, ?_, (Option.some.inj hinfo).symm⟩
      refine h.concat (fun hnone => by rw [hd] at hnone; cases hnone) ?_
      rw [hd]
      exact advance_singleton.2 ⟨hoff, hmore, rfl⟩
  · have hpiece := activeRequest_of_piece (activeAt aesCcm prepare n) hd
    rw [serverStep_abandoned aesCcm serverNetworkKey hpiece hoff] at hinfo
    cases hinfo

/-- **An active update is a session**, whatever the server received. -/
theorem session_of_state (packets : List Packet) : ∀ info, stateAfter aesCcm serverNetworkKey packets = some info →
    ∃ before p since prepare n, packets = before ++ p :: since ∧
      Session aesCcm serverNetworkKey before p since prepare n ∧ info = activeAt aesCcm prepare n := by
  induction packets using List.reverseRecOn with
  | nil =>
    intro info hinfo
    cases hinfo
  | append_singleton packets d ih =>
    intro info' hinfo'
    by_cases hnone : activeRequest (stateAfter aesCcm serverNetworkKey packets) d = .ok none
    · cases hp : announcedBy (aesCcm serverNetworkKey) d with
      | some prepare =>
        obtain ⟨hsession, hstate⟩ := session_started hnone hp
        exact ⟨packets, d, [], prepare, 0, rfl, hsession, Option.some.inj (hinfo'.symm.trans hstate)⟩
      | none =>
        have hs : stateAfter aesCcm serverNetworkKey packets = some info' := by
          rwa [stateAfter_concat, serverStep_ignored aesCcm serverNetworkKey hnone hp] at hinfo'
        obtain ⟨before, p, since, prepare, n, hcut, hsession, rfl⟩ := ih info' hs
        have hd : pieceOf (aesCcm prepare.updateKey) d = none := by
          rw [hs, activeRequest_of_pieceOf, Except.ok.injEq, Option.map_eq_none_iff] at hnone
          exact hnone
        refine ⟨before, p, since ++ [d], prepare, n, by rw [hcut]; simp, ?_, rfl⟩
        exact hsession.concat (fun _ => hp) (by rw [hd]; rfl)
    · rcases activeRequest_total (stateAfter aesCcm serverNetworkKey packets) d with h | ⟨info, update, hs, hpiece⟩
      · exact absurd h hnone
      · obtain ⟨before, p, since, prepare, n, hcut, hsession, rfl⟩ := ih info hs
        rw [hs] at hpiece
        have hd : pieceOf (aesCcm prepare.updateKey) d = some update := pieceOf_of_activeRequest hpiece
        rw [stateAfter_concat, hs] at hinfo'
        obtain ⟨m, hnext, hinfo⟩ := hsession.next hd hinfo'
        exact ⟨before, p, since ++ [d], prepare, m, by rw [hcut]; simp, hnext, hinfo⟩

/-- **When a server finishes an update**, whatever it receives: since an activation nothing else was announced to it, the
pieces its cipher opened start each where the last ended without reaching the length, and the last packet is the piece
that does. -/
theorem finished_iff (front : List Packet) (d : Packet) (update : Update UPDATE_BYTES_SIZE) :
    eventsAfter aesCcm serverNetworkKey front [d] = [.update update .finished] ↔
      ∃ before p since prepare n, front = before ++ p :: since ∧
        Session aesCcm serverNetworkKey before p since prepare n ∧
        pieceOf (aesCcm prepare.updateKey) d = some update ∧ update.byteOffset.toNat = n ∧
        n + update.bytes.toList.length = prepare.updateByteLen.toNat := by
  rw [eventsAfter_singleton, List.cons.injEq]
  constructor
  · rintro ⟨hend, -⟩
    rcases activeRequest_total (stateAfter aesCcm serverNetworkKey front) d with hnone | ⟨info, piece, hs, hpiece⟩
    · rw [serverStep_of_announcedBy aesCcm serverNetworkKey hnone] at hend
      cases hp : announcedBy (aesCcm serverNetworkKey) d <;> rw [hp] at hend <;> cases hend
    · obtain ⟨before, p, since, prepare, n, hcut, hsession, rfl⟩ := session_of_state front info hs
      rw [hs] at hpiece
      rw [serverStep_of_active aesCcm serverNetworkKey (hs ▸ hpiece)] at hend
      by_cases hoff : piece.byteOffset.toNat = n
      · obtain ⟨outcome, -, hprocess, hlast⟩ :=
          processActiveUpdate_accepted (show _ = (activeAt aesCcm prepare n).nextByteOffset from hoff)
        rw [hprocess] at hend
        obtain ⟨rfl, rfl⟩ := Event.update.inj hend
        exact ⟨before, p, since, prepare, n, hcut, hsession, pieceOf_of_activeRequest hpiece, hoff, hlast.1 rfl⟩
      · rw [processActiveUpdate_abandoned hoff] at hend
        cases hend
  · rintro ⟨before, p, since, prepare, n, hcut, hsession, hopen, hoff, hend⟩
    refine ⟨?_, rfl⟩
    have hs := hsession.stateAfter
    rw [← hcut] at hs
    rw [hs]
    exact serverStep_finished hopen hoff hend

/-! ## An update whose pieces all arrive -/

/-- A server without an update ignores what announces none. -/
theorem run_none : ∀ since : List Packet, (∀ d ∈ since, announcedBy (aesCcm serverNetworkKey) d = none) →
    Mealy.run (serverStep aesCcm serverNetworkKey) none since = none ∧
    ∀ e ∈ Mealy.outputs (serverStep aesCcm serverNetworkKey) none since, e = .ignored
  | [], _ => ⟨rfl, fun e he => absurd he List.not_mem_nil⟩
  | d :: since, halone => by
    have hstep : serverStep aesCcm serverNetworkKey none d = (none, .ignored) :=
      serverStep_ignored aesCcm serverNetworkKey rfl (halone d List.mem_cons_self)
    obtain ⟨hrun, hevents⟩ := run_none since (fun x hx => halone x (List.mem_cons_of_mem d hx))
    rw [Mealy.run, Mealy.outputs, hstep]
    refine ⟨hrun, fun e he => ?_⟩
    rcases List.mem_cons.1 he with rfl | he
    · rfl
    · exact hevents e he

theorem acceptedBytes_eq_nil {events : List Event} (h : ∀ e ∈ events, e.accepted = none) :
    acceptedBytes events = [] := by
  unfold acceptedBytes
  rw [List.filterMap_eq_nil_iff.2 h, List.flatten_nil]

theorem acceptedBytes_cons (e : Event) (events : List Event) :
    acceptedBytes (e :: events) = e.accepted.getD [] ++ acceptedBytes events := by
  unfold acceptedBytes
  rw [List.filterMap_cons]
  cases e.accepted <;> rfl

theorem drop_eq_take_append_drop {α : Type} (l : List α) {a b : Nat} (h : a ≤ b) :
    l.drop a = (l.drop a).take (b - a) ++ l.drop b := by
  have hrest : l.drop b = (l.drop a).drop (b - a) := by rw [List.drop_drop, Nat.add_sub_of_le h]
  rw [hrest, List.take_append_drop]

/-- **From any piece of the image on**: if the pieces that arrive are those the client sends, the server accepts the rest
of the image and is finished. -/
theorem Pieces.run {prepare : PrepareForUpdate} {image : List UInt8}
    (himage : prepare.updateByteLen.toNat = image.length) :
    ∀ (since : List Packet) (offset : Nat) (frameCounter : UInt16) (sent : List Sent)
      (updates : List (Update UPDATE_BYTES_SIZE)), offset < image.length →
      Pieces (aesCcm prepare.updateKey) image offset frameCounter sent updates →
      (∀ d ∈ since, announcedBy (aesCcm serverNetworkKey) d = none) →
      since.filterMap (pieceOf (aesCcm prepare.updateKey)) = updates →
      Mealy.run (serverStep aesCcm serverNetworkKey) (some (activeAt aesCcm prepare offset)) since = none ∧
      acceptedBytes (Mealy.outputs (serverStep aesCcm serverNetworkKey) (some (activeAt aesCcm prepare offset)) since)
        = image.drop offset ∧
      ∃ update, .update update .finished
        ∈ Mealy.outputs (serverStep aesCcm serverNetworkKey) (some (activeAt aesCcm prepare offset)) since
  | [], offset, _, _, updates, hoff, hpieces, _, hread => by
    cases hpieces with
    | done => exact absurd hoff (Nat.lt_irrefl _)
    | piece => cases hread
  | d :: since, offset, frameCounter, sent, updates, hoff, hpieces, halone, hread => by
    have halone' : ∀ x ∈ since, announcedBy (aesCcm serverNetworkKey) x = none :=
      fun x hx => halone x (List.mem_cons_of_mem d hx)
    rw [Mealy.run, Mealy.outputs, acceptedBytes_cons]
    cases hd : pieceOf (aesCcm prepare.updateKey) d with
    | none =>
      have hstep : serverStep aesCcm serverNetworkKey (some (activeAt aesCcm prepare offset)) d
          = (some (activeAt aesCcm prepare offset), .ignored) :=
        serverStep_ignored aesCcm serverNetworkKey (activeRequest_of_no_piece hd) (halone d List.mem_cons_self)
      rw [List.filterMap_cons_none hd] at hread
      obtain ⟨hrun, hbytes, update, hupdate⟩ :=
        Pieces.run himage since offset frameCounter sent updates hoff hpieces halone' hread
      rw [hstep]
      exact ⟨hrun, hbytes, update, List.mem_cons_of_mem _ hupdate⟩
    | some update =>
      rw [List.filterMap_cons_some hd] at hread
      cases hpieces with
      | done => exact absurd hoff (Nat.lt_irrefl _)
      | piece _ hpiece _ _ hrest =>
        obtain ⟨rfl, htail⟩ := List.cons.inj hread
        have hbounds := pieceEnd_bounds hoff
        have hend : offset + update.bytes.toList.length = pieceEnd image.length offset := by
          rw [hpiece.length hoff]
          omega
        have haccepted := (serverStep_accepted aesCcm serverNetworkKey
          (activeRequest_of_piece (activeAt aesCcm prepare offset) hd) hpiece.starts).2.2
        have hsplit : image.drop offset = update.bytes.toList ++ image.drop (pieceEnd image.length offset) := by
          rw [hpiece.bytes]
          exact drop_eq_take_append_drop image (Nat.le_of_lt hbounds.1)
        rw [haccepted, Option.getD_some, hsplit, serverStep_expected hd hpiece.starts, himage, hend]
        by_cases hlast : pieceEnd image.length offset = image.length
        · obtain ⟨hrun, hevents⟩ := run_none since halone'
          have hbytes := acceptedBytes_eq_nil (fun e he => by rw [hevents e he]; rfl)
          rw [if_pos hlast, hrun, hbytes, hlast, List.drop_length]
          refine ⟨rfl, rfl, update, ?_⟩
          rw [serverStep_finished hd hpiece.starts (by rw [hend, hlast, himage])]
          exact List.mem_cons_self
        · obtain ⟨hrun, hbytes, other, hother⟩ := Pieces.run himage since _ _ _ _ (by omega) hrest halone' htail
          rw [if_neg hlast, hrun, hbytes]
          exact ⟨rfl, rfl, other, List.mem_cons_of_mem _ hother⟩

theorem clientTask_pieces (hlawful : ∀ key, (aesCcm key).Lawful) {servers : List (UInt8 × UpdateKey)}
    {updateKey : UpdateKey} {image : List UInt8} (himage : image.length < 2 ^ 28) {prepared sent : List Sent}
    (hsent : clientTask aesCcm servers updateKey image = .ok (prepared, sent)) :
    ∃ frameCounter updates, Pieces (aesCcm updateKey) image 0 frameCounter sent updates := by
  obtain ⟨prepared', ⟨frameCounter, datagramBuf⟩, hprepare, -⟩ :=
    prepareServersForUpdate_ok hlawful updateKey image.length servers 0 (Vector.replicate MIN_PACKET_SIZE 0)
  obtain ⟨sent', updates, hupdate, hpieces⟩ :=
    updateServers_pieces hlawful updateKey (Nat.lt_add_right _ himage) frameCounter datagramBuf
  simp only [clientTask, hprepare, bind, Except.bind, hupdate] at hsent
  cases hsent
  exact ⟨frameCounter, updates, hpieces⟩

/-- The pieces a transfer is read as. -/
theorem Pieces.filterMap_pieceOf {cipher : LinkCipher} (hc : cipher.Lawful) {image : List UInt8} {offset : Nat}
    {frameCounter : UInt16} {sent : List Sent} {updates : List (Update UPDATE_BYTES_SIZE)}
    (h : Pieces cipher image offset frameCounter sent updates) :
    (sent.map Sent.datagram).filterMap (pieceOf cipher) = updates := by
  have hread := h.read hc
  clear h
  induction hread with
  | nil => rfl
  | cons hx _ ih =>
    rw [List.map_cons, List.filterMap_cons_some (by rw [pieceOf, hx]), ih]

/-- **An update whose pieces arrive completes**, among any other packets: if what a server's cipher opens after an
activation is what the client of that update sent, in order, and nothing else is announced to it, then it accepts the
image and is finished with it. -/
theorem update_completes (hlawful : ∀ key, (aesCcm key).Lawful) {servers : List (UInt8 × UpdateKey)}
    {updateKey : UpdateKey} {image : List UInt8} (hpos : image ≠ []) (hshort : image.length < 2 ^ 28)
    {prepared sent : List Sent} (hsent : clientTask aesCcm servers updateKey image = .ok (prepared, sent))
    (before : List Packet) (p : Packet) (since : List Packet)
    (hactivated : eventsAfter aesCcm serverNetworkKey before [p]
      = [.activated (prepareForUpdate updateKey image.length)])
    (halone : ∀ d ∈ since, announcedBy (aesCcm serverNetworkKey) d = none)
    (hpieces : since.filterMap (pieceOf (aesCcm updateKey))
      = (sent.map Sent.datagram).filterMap (pieceOf (aesCcm updateKey))) :
    acceptedBytes (eventsAfter aesCcm serverNetworkKey (before ++ [p]) since) = image ∧
    (∃ update, .update update .finished ∈ eventsAfter aesCcm serverNetworkKey (before ++ [p]) since) ∧
    stateAfter aesCcm serverNetworkKey (before ++ p :: since) = none := by
  obtain ⟨frameCounter, updates, hp⟩ := clientTask_pieces hlawful hshort hsent
  have hread := hp.filterMap_pieceOf (hlawful updateKey)
  have hlen : (prepareForUpdate updateKey image.length).updateByteLen.toNat = image.length := by
    rw [prepareForUpdate, UInt32.toNat_ofNat']
    omega
  rw [eventsAfter_singleton] at hactivated
  have hstart : stateAfter aesCcm serverNetworkKey (before ++ [p])
      = some (activeAt aesCcm (prepareForUpdate updateKey image.length) 0) := by
    rw [stateAfter_concat, activated_of_serverStep (List.cons.inj hactivated).1]
  obtain ⟨hrun, hbytes, hfinished⟩ := Pieces.run hlen since 0 frameCounter sent updates (List.length_pos_iff.2 hpos) hp
    halone (hpieces.trans hread)
  have hcut : before ++ p :: since = (before ++ [p]) ++ since := by simp
  unfold eventsAfter
  rw [hcut, hstart]
  refine ⟨hbytes, hfinished, ?_⟩
  unfold stateAfter at hstart ⊢
  rw [Mealy.run_append, hstart, hrun]

/-- The small update among packets of zeros and of ones. -/
theorem update_completes_three_bytes :
    acceptedBytes (eventsAfter exampleAesCcm exampleServerKey ([chunkPacket] ++ [preparePacket])
      [Vector.replicate MIN_PACKET_SIZE 0, chunkPacket, Vector.replicate MIN_PACKET_SIZE 255]) = [7, 8, 9] :=
  (update_completes exampleUpdate_delivery.lawful (by decide) (by decide) exampleUpdate_sent [chunkPacket] preparePacket
    [Vector.replicate MIN_PACKET_SIZE 0, chunkPacket, Vector.replicate MIN_PACKET_SIZE 255] (by decide +kernel)
    (by decide +kernel) (by decide +kernel)).1

end Server

end SoftwareUpdate
end FlipFlop
