import FlipFlop.Nonce
/-!
# DatagramHeaders — `to_datagram` under any header (`data/src/lib.rs`)

A `Header` holds a version and a whole byte of port, the frame two bits and three.  What is past them is masked away or
not written at all, so that a receiver reads the header in its normal form (`toDatagram_any_header`).
-/
namespace FlipFlop

variable {N : Nat} {cipher : LinkCipher}

/-- The header a receiver reads: of version zero, and with the port modulo eight. -/
def Header.normal (h : Header) : Header := { h with version := 0, serverPort := h.serverPort % 8 }

theorem normal_port_le (h : Header) : h.normal.serverPort ≤ 7 := by
  show h.serverPort % 8 ≤ 7
  rw [UInt8.le_iff_toNat_le, UInt8.toNat_mod]
  have hmod := Nat.mod_lt h.serverPort.toNat (show 0 < (8 : UInt8).toNat by decide)
  exact Nat.le_of_lt_succ hmod

theorem toPacked_normal (h : Header) : h.normal.toPacked = h.toPacked :=
  toPacked_inj.2 ⟨rfl, rfl, port_mod_eq (normal_port_le h), rfl⟩

theorem frameOf_normal (cipher : LinkCipher) (header : Header) (payloadBuf : List UInt8) :
    frameOf cipher header.normal payloadBuf = frameOf cipher header payloadBuf := by
  unfold frameOf sealedPayload
  rw [toPacked_normal]

/-- What a receiver makes of a frame, through its filter. -/
theorem openFrame_any_header (hc : cipher.Lawful) (header : Header) {payloadBuf : List UInt8}
    (hroom : payloadBuf.length ≤ N) (filter : Header → Bool) :
    openFrame N (frameOf cipher header payloadBuf) filter cipher
      = if filter header.normal = true then .ok (header.normal, ⟨payloadBuf, hroom⟩)
        else .error .filterDoesNotMatch := by
  rw [← frameOf_normal]
  split
  · rename_i hwanted
    exact openFrame_frameOf hc rfl (normal_port_le header) hroom hwanted
  · rename_i hunwanted
    exact openFrame_frameOf_filtered rfl (normal_port_le header) payloadBuf (Bool.eq_false_iff.2 hunwanted) cipher

/-- **What a receiver makes of any `to_datagram` call**, the header's version and port being whatever they are: its
filter sees the header in normal form, and the payload comes back with that; and two calls into one buffer write the same
bytes exactly when a receiver reads the same of them. -/
theorem toDatagram_any_header (hc : cipher.Lawful) (hN : N < 2 ^ Postcard.usizeBits) (header header' : Header)
    (payloadBuf payloadBuf' : List UInt8) (datagramBuf : Vector UInt8 N) (hfit : frameLen payloadBuf.length ≤ N)
    (hfit' : frameLen payloadBuf'.length ≤ N) :
    ∃ out out', toDatagram cipher header payloadBuf datagramBuf = .ok out ∧
      toDatagram cipher header' payloadBuf' datagramBuf = .ok out' ∧
      (∀ filter, filter header.normal = true →
        ∃ payload, fromDatagram out filter cipher = .ok (.ok (header.normal, payload)) ∧ payload.toList = payloadBuf) ∧
      (∀ filter, filter header.normal = false → fromDatagram out filter cipher = .ok (.error .filterDoesNotMatch)) ∧
      (out = out' ↔ header.normal = header'.normal ∧ payloadBuf = payloadBuf') := by
  obtain ⟨out, hout, hbytes⟩ := toDatagram_of_le hc hN header payloadBuf datagramBuf hfit
  obtain ⟨out', hout', hbytes'⟩ := toDatagram_of_le hc hN header' payloadBuf' datagramBuf hfit'
  have hroom : payloadBuf.length + MIC_SIZE ≤ N := by unfold frameLen at hfit; omega
  have hroom' : payloadBuf'.length + MIC_SIZE ≤ N := by unfold frameLen at hfit'; omega
  have hread : ∀ filter,
      fromDatagram out filter cipher = .ok (openFrame N (frameOf cipher header payloadBuf) filter cipher) :=
    fun filter => fromDatagram_of_frame hbytes (by rw [frameOf, length_sealedPayload hc]; omega) filter cipher
  have hread' : ∀ filter,
      fromDatagram out' filter cipher = .ok (openFrame N (frameOf cipher header' payloadBuf') filter cipher) :=
    fun filter => fromDatagram_of_frame hbytes' (by rw [frameOf, length_sealedPayload hc]; omega) filter cipher
  simp only [openFrame_any_header hc _ (show payloadBuf.length ≤ N by omega)] at hread
  simp only [openFrame_any_header hc _ (show payloadBuf'.length ≤ N by omega)] at hread'
  refine ⟨out, out', hout, hout', ?_, ?_, ?_, ?_⟩
  · intro filter hwanted
    exact ⟨_, by rw [hread, if_pos hwanted], rfl⟩
  · intro filter hunwanted
    rw [hread, if_neg (Bool.eq_false_iff.1 hunwanted)]
  · -- a receiver that filters nothing tells the two apart
    rintro rfl
    have hsame := (hread fun _ => true).symm.trans (hread' fun _ => true)
    simp only [if_true, Except.ok.injEq, Prod.mk.injEq, Rust.HVec.mk.injEq] at hsame
    exact hsame
  · rintro ⟨hheader, rfl⟩
    rw [← Vector.toList_inj, hbytes, hbytes', ← frameOf_normal cipher header, hheader, frameOf_normal]

/-- A port past the three bits, and a version that `to_datagram` does not write. -/
theorem toDatagram_any_header_port_fifteen :
    ∃ out out',
      toDatagram (AesCcm.new testKey).toCipher ⟨1, .server, 255, 15, 1⟩ testPayload (Vector.replicate 32 0) = .ok out ∧
      toDatagram (AesCcm.new testKey).toCipher testHeader testPayload (Vector.replicate 32 0) = .ok out' ∧
      out = out' := by
  have hfit : frameLen testPayload.length ≤ 32 := by
    unfold frameLen
    rw [Postcard.varintLen_of_lt (by decide)]
    decide
  obtain ⟨out, out', hout, hout', -, -, hsame⟩ := toDatagram_any_header (AesCcm.new_lawful testKey) (by decide)
    ⟨1, .server, 255, 15, 1⟩ testHeader testPayload testPayload (Vector.replicate 32 0) hfit hfit
  exact ⟨out, out', hout, hout', hsame.2 ⟨by decide, rfl⟩⟩

end FlipFlop
