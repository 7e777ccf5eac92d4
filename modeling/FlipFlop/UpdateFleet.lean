import FlipFlop.UpdateNonces
import FlipFlop.UpdateReceiver
/-!
# UpdateFleet — one run of the client and all who hear it (`data/examples/update/main.rs`, `main`)

Everything the client sends is broadcast.  A server in the client's list has the image and is finished once it has heard
the whole run, and any other server has done nothing at all (`fleet_updated`): the network keys tell them apart at the
prepare messages, and the update key from there on.
-/
namespace FlipFlop
namespace SoftwareUpdate

open Rust Postcard

variable {aesCcm : UpdateKey → LinkCipher} {u : ClientUpdate} {serverNetworkKey : UpdateKey}

/-- What the prepare messages of an update announce. -/
def ClientUpdate.announcement (u : ClientUpdate) : PrepareForUpdate := prepareForUpdate u.updateKey u.image.length

/-- The server waits for the first piece of the update, or for no update. -/
def Waits (aesCcm : UpdateKey → LinkCipher) (u : ClientUpdate) (active : Option UpdateInfo) : Prop :=
  active = none ∨ active = some (activeAt aesCcm u.announcement 0)

theorem Waits.cipher {active : Option UpdateInfo} (h : Waits aesCcm u active) :
    ∀ info, active = some info → info.cipher = aesCcm u.updateKey := by
  rintro info rfl
  rcases h with h | h
  · cases h
  · cases h
    rfl

theorem acceptedBytes_append (events more : List Event) :
    acceptedBytes (events ++ more) = acceptedBytes events ++ acceptedBytes more := by
  unfold acceptedBytes
  rw [List.filterMap_append, List.flatten_append]

section Run

variable (h : Delivery aesCcm [u] serverNetworkKey)
include h

/-- **A prepare message activates the update at the server it is for**, and passes any other by. -/
theorem Delivery.serverStep_prepare {active : Option UpdateInfo} (hactive : Waits aesCcm u active)
    {server : UInt8 × UpdateKey} (hmem : server ∈ u.servers) {d : Packet}
    (hd : Carries (aesCcm server.2) u.announcement d) :
    serverStep aesCcm serverNetworkKey active d
      = if server.2 = serverNetworkKey then (some (activeAt aesCcm u.announcement 0), .activated u.announcement)
        else (active, .ignored) := by
  have hu : u ∈ [u] := List.mem_singleton.2 rfl
  have hkey : InUse [u] serverNetworkKey server.2 := .inr ⟨u, hu, .inr ⟨server, hmem, rfl⟩⟩
  have hnone := h.activeRequest_none hu hactive.cipher hkey ((h.fresh u hu).2 u hu server hmem) hd
  split
  · rename_i hmine
    rw [hmine] at hd
    exact serverStep_of_prepare hnone (hd.processRequest (h.lawful _) (fromBytes_ser _)) (cmp_prepareForUpdate _ _)
  · rename_i hother
    exact serverStep_of_none hnone (h.processRequest_none hkey (.inl rfl) hother hd)

/-- **After the prepare messages** the servers they were for wait for the first piece, and the others have done nothing. -/
theorem Delivery.run_prepared {servers : List (UInt8 × UpdateKey)} {frameCounter : UInt16} {prepared : List Sent}
    (hprepared : Prepared aesCcm u.announcement servers frameCounter prepared)
    (hsub : ∀ server ∈ servers, server ∈ u.servers) :
    ∀ active, Waits aesCcm u active →
      Mealy.run (serverStep aesCcm serverNetworkKey) active (prepared.map Sent.datagram)
        = (if ∃ server ∈ servers, server.2 = serverNetworkKey then some (activeAt aesCcm u.announcement 0) else active) ∧
      ∀ e ∈ Mealy.outputs (serverStep aesCcm serverNetworkKey) active (prepared.map Sent.datagram),
        e = .ignored ∨ (∃ server ∈ servers, server.2 = serverNetworkKey) ∧ e = .activated u.announcement := by
  induction hprepared with
  | done =>
    intro active _
    exact ⟨by simp [Mealy.run], fun e he => by cases he⟩
  | @server server servers _ _ _ hfit hframe hrest ih =>
    intro active hactive
    have hstep := h.serverStep_prepare hactive (hsub server List.mem_cons_self) ⟨hfit, _, hframe⟩
    have ih := ih (fun other hother => hsub other (List.mem_cons_of_mem server hother))
    rw [List.map_cons, Mealy.run, Mealy.outputs, hstep]
    by_cases hmine : server.2 = serverNetworkKey
    · obtain ⟨hrun, hevents⟩ := ih _ (.inr rfl)
      have hlisted : ∃ other ∈ server :: servers, other.2 = serverNetworkKey := ⟨server, List.mem_cons_self, hmine⟩
      rw [if_pos hmine, if_pos hlisted, hrun]
      refine ⟨by split <;> rfl, fun e he => ?_⟩
      rcases List.mem_cons.1 he with rfl | he
      · exact .inr ⟨hlisted, rfl⟩
      · exact (hevents e he).imp_right (fun hactivated => ⟨hlisted, hactivated.2⟩)
    · obtain ⟨hrun, hevents⟩ := ih active hactive
      have hsame : (∃ other ∈ server :: servers, other.2 = serverNetworkKey) ↔
          ∃ other ∈ servers, other.2 = serverNetworkKey := by simp [hmine]
      rw [if_neg hmine, hrun]
      simp only [hsame]
      refine ⟨trivial, fun e he => ?_⟩
      rcases List.mem_cons.1 he with rfl | he
      · exact .inl rfl
      · exact hevents e he

/-- The pieces announce nothing to anyone. -/
theorem Delivery.announcedBy_piece {d : Packet} {update : Update UPDATE_BYTES_SIZE}
    (hd : Carries (aesCcm u.updateKey) update d) : announcedBy (aesCcm serverNetworkKey) d = none := by
  have hu : u ∈ [u] := List.mem_singleton.2 rfl
  have hnone := h.processRequest_none (β := PrepareForUpdate) (.inr ⟨u, hu, .inl rfl⟩) (.inl rfl) (h.fresh u hu).1 hd
  have hnone : processClientPrepareForUpdateRequest (aesCcm serverNetworkKey) d = .ok none := hnone
  rw [announcedBy, hnone]

/-- **One run of the client updates the servers it lists, and no other.**  Whoever hears the whole run: a server whose key
is in the list has accepted the image, was told that it is complete, and waits for nothing more; a server whose key is
not has ignored every packet. -/
theorem fleet_updated (hpos : u.image ≠ []) :
    ∃ prepared sent, clientTask aesCcm u.servers u.updateKey u.image = .ok (prepared, sent) ∧
      ((∃ server ∈ u.servers, server.2 = serverNetworkKey) →
        acceptedBytes (eventsAfter aesCcm serverNetworkKey [] ((prepared ++ sent).map Sent.datagram)) = u.image ∧
        (∃ update, .update update .finished
          ∈ eventsAfter aesCcm serverNetworkKey [] ((prepared ++ sent).map Sent.datagram)) ∧
        stateAfter aesCcm serverNetworkKey ((prepared ++ sent).map Sent.datagram) = none) ∧
      ((∀ server ∈ u.servers, server.2 ≠ serverNetworkKey) →
        ∀ e ∈ eventsAfter aesCcm serverNetworkKey [] ((prepared ++ sent).map Sent.datagram), e = .ignored) := by
  have hu : u ∈ [u] := List.mem_singleton.2 rfl
  have hshort := h.short u hu
  obtain ⟨prepared, sent, updates, hok, hprepared, hpieces⟩ :=
    clientTask_prepared h.lawful u.servers u.updateKey (Nat.lt_add_right _ hshort)
  have halone : ∀ d ∈ sent.map Sent.datagram, announcedBy (aesCcm serverNetworkKey) d = none := by
    intro d hd
    obtain ⟨x, hx, rfl⟩ := List.mem_map.1 hd
    obtain ⟨update, -, hcarries⟩ := hpieces.carries x hx
    exact h.announcedBy_piece hcarries
  obtain ⟨hrun, hevents⟩ := h.run_prepared hprepared (fun _ hmem => hmem) none (.inl rfl)
  refine ⟨prepared, sent, hok, ?_, ?_⟩
  · intro hlisted
    rw [if_pos hlisted] at hrun
    have hnothing : acceptedBytes (Mealy.outputs (serverStep aesCcm serverNetworkKey) none (prepared.map Sent.datagram))
        = [] := by
      apply acceptedBytes_eq_nil
      intro e he
      rcases hevents e he with rfl | ⟨-, rfl⟩
      · rfl
      · rfl
    obtain ⟨hend, hbytes, update, hfinished⟩ := Pieces.run (updateByteLen_prepareForUpdate hshort) _ 0 _ sent updates
      (List.length_pos_iff.2 hpos) hpieces halone (hpieces.filterMap_pieceOf (h.lawful u.updateKey))
    unfold eventsAfter stateAfter
    rw [List.map_append, Mealy.run, Mealy.outputs_append, Mealy.run_append, hrun, acceptedBytes_append, hnothing]
    exact ⟨hbytes, ⟨update, List.mem_append_right _ hfinished⟩, hend⟩
  · intro hother e he
    have hnot : ¬ ∃ server ∈ u.servers, server.2 = serverNetworkKey := by
      rintro ⟨server, hmem, hkey⟩
      exact hother server hmem hkey
    rw [if_neg hnot] at hrun
    unfold eventsAfter stateAfter at he
    rw [List.map_append, Mealy.run, Mealy.outputs_append, hrun] at he
    rcases List.mem_append.1 he with he | he
    · exact (hevents e he).resolve_right (fun hactivated => hnot hactivated.1)
    · exact (run_none _ halone).2 e he

end Run

/-- The small update, at the server it is for. -/
theorem fleet_updated_three_bytes :
    ∃ prepared sent, clientTask exampleAesCcm exampleUpdate.servers exampleUpdate.updateKey exampleUpdate.image
        = .ok (prepared, sent) ∧
      acceptedBytes (eventsAfter exampleAesCcm exampleServerKey [] ((prepared ++ sent).map Sent.datagram))
        = [7, 8, 9] := by
  obtain ⟨prepared, sent, hok, hlisted, -⟩ := fleet_updated exampleUpdate_delivery (by decide)
  exact ⟨prepared, sent, hok, (hlisted ⟨(1, exampleServerKey), List.mem_singleton.2 rfl, rfl⟩).1⟩

end SoftwareUpdate
end FlipFlop
