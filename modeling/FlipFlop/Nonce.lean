import FlipFlop.Datagram
/-!
# Nonce — when two datagrams share one

A nonce is the packed header and the payload's length cut to a byte (`new_nonce`), so that two calls of `to_datagram`
share it exactly when their headers pack alike and their lengths agree modulo 256.  A source that counts its frames up
modulo `2 ^ 16` therefore uses a nonce again only after a multiple of 65536 frames, and the direction bit keeps the two
directions of a link apart (`nonce_separation`).
-/
namespace FlipFlop

/-- The arguments of a call of `to_datagram`, its cipher and buffer apart. -/
structure Call where
  header : Header
  payloadBuf : List UInt8
  deriving Repr, DecidableEq

/-- The nonce that `to_datagram` seals the payload with. -/
def Call.nonce (call : Call) : Vector UInt8 NONCE_SIZE := newNonce call.header.toPacked call.payloadBuf.length

/-- The calls of one source that increments its frame counter after each. -/
def sends (source : DataSource) : UInt16 → List Call → List Call
  | _, [] => []
  | frameCounter, call :: calls =>
    { call with header := { call.header with source, frameCounter } } :: sends source (frameCounter + 1) calls

/-! ## What a nonce tells -/

theorem newNonce_inj {b b' : Packed} {l l' : Nat} :
    newNonce b l = newNonce b' l' ↔ b = b' ∧ l % 256 = l' % 256 := by
  obtain ⟨b0, b1, b2, b3⟩ := b
  obtain ⟨c0, c1, c2, c3⟩ := b'
  have hlen : UInt8.ofNat l = UInt8.ofNat l' ↔ l % 256 = l' % 256 := by
    rw [← UInt8.toNat_inj, UInt8.toNat_ofNat', UInt8.toNat_ofNat']
  rw [← Vector.toList_inj]
  show [0x01, b0, b1, b2, b3, UInt8.ofNat l, 0x00] = [0x01, c0, c1, c2, c3, UInt8.ofNat l', 0x00] ↔ _
  simp [hlen, and_assoc]

/-- **Headers pack alike exactly when they agree on direction, address, port modulo eight and counter.** -/
theorem toPacked_inj {h h' : Header} : h.toPacked = h'.toPacked ↔
    h.source = h'.source ∧ h.serverAddress = h'.serverAddress ∧ h.serverPort % 8 = h'.serverPort % 8 ∧
      h.frameCounter = h'.frameCounter := by
  constructor
  · intro heq
    have hparse := parse_toPacked h
    rw [heq, parse_toPacked h', Except.ok.injEq, Header.mk.injEq] at hparse
    obtain ⟨-, hsource, haddress, hport, hcounter⟩ := hparse
    exact ⟨hsource.symm, haddress.symm, hport.symm, hcounter.symm⟩
  · rintro ⟨hsource, haddress, hport, hcounter⟩
    have hport : h.serverPort.toNat % 8 = h'.serverPort.toNat % 8 := by
      have := congrArg UInt8.toNat hport
      rwa [UInt8.toNat_mod, UInt8.toNat_mod] at this
    have hword : h.word = h'.word := by
      apply UInt32.toNat_inj.1
      rw [toNat_word, toNat_word, hsource, haddress, hport, hcounter]
    rw [Header.toPacked, Header.toPacked, hword]

theorem nonce_eq_iff (h h' : Header) (l l' : Nat) : newNonce h.toPacked l = newNonce h'.toPacked l' ↔
    h.source = h'.source ∧ h.serverAddress = h'.serverAddress ∧ h.serverPort % 8 = h'.serverPort % 8 ∧
      h.frameCounter = h'.frameCounter ∧ l % 256 = l' % 256 := by
  rw [newNonce_inj, toPacked_inj]
  simp only [and_assoc]

/-! ## A source that counts its frames -/

theorem frameCounter_sends (source : DataSource) : ∀ (calls : List Call) (start : UInt16) (i : Nat) (call : Call),
    (sends source start calls)[i]? = some call → call.header.frameCounter = start + UInt16.ofNat i
  | [], _, _, _, h => by cases h
  | c :: calls, start, 0, call, h => by
    cases h
    exact (UInt16.add_zero start).symm
  | c :: calls, start, i + 1, call, h => by
    have ih := frameCounter_sends source calls (start + 1) i call h
    rw [ih, UInt16.ofNat_add, UInt16.add_comm (UInt16.ofNat i), ← UInt16.add_assoc]
    rfl

/-- Two positions of one counter are a multiple of `2 ^ 16` apart. -/
theorem dvd_sub_of_counter_eq {start : UInt16} {i j : Nat} (hij : i < j)
    (h : start + UInt16.ofNat i = start + UInt16.ofNat j) : 65536 ∣ j - i := by
  have hnat := congrArg UInt16.toNat h
  simp only [UInt16.toNat_add, UInt16.toNat_ofNat'] at hnat
  omega

/-- **A source that counts its frames uses a nonce again only a multiple of 65536 frames later.** -/
theorem dvd_of_nonce_eq {source : DataSource} {start : UInt16} {calls : List Call} {i j : Nat} {a b : Call} (hij : i < j)
    (ha : (sends source start calls)[i]? = some a) (hb : (sends source start calls)[j]? = some b)
    (hnonce : a.nonce = b.nonce) : 65536 ∣ j - i := by
  obtain ⟨-, -, -, hcounter, -⟩ := (nonce_eq_iff _ _ _ _).1 hnonce
  rw [frameCounter_sends source calls start i a ha, frameCounter_sends source calls start j b hb] at hcounter
  exact dvd_sub_of_counter_eq hij hcounter

/-- **Nonce separation.**  Two calls share a nonce exactly when their headers agree and their payloads' lengths do
modulo 256; a source that counts its frames, from any counter and over any calls, shares a nonce between two of them
only a multiple of 65536 apart; and no call of a client shares one with a call of a server. -/
theorem nonce_separation :
    (∀ (h h' : Header) (l l' : Nat), h.serverPort ≤ 7 → h'.serverPort ≤ 7 →
      (newNonce h.toPacked l = newNonce h'.toPacked l' ↔
        h.source = h'.source ∧ h.serverAddress = h'.serverAddress ∧ h.serverPort = h'.serverPort ∧
          h.frameCounter = h'.frameCounter ∧ l % 256 = l' % 256)) ∧
    (∀ (source : DataSource) (start : UInt16) (calls : List Call) (i j : Nat) (a b : Call), i < j →
      (sends source start calls)[i]? = some a → (sends source start calls)[j]? = some b → a.nonce = b.nonce →
        65536 ∣ j - i) ∧
    ∀ a b : Call, a.header.source = .client → b.header.source = .server → a.nonce ≠ b.nonce := by
  refine ⟨?_, ?_, ?_⟩
  · intro h h' l l' hp hp'
    rw [nonce_eq_iff, port_mod_eq hp, port_mod_eq hp']
  · intro source start calls i j a b hij ha hb hnonce
    exact dvd_of_nonce_eq hij ha hb hnonce
  · intro a b ha hb hnonce
    obtain ⟨hsource, -⟩ := (nonce_eq_iff _ _ _ _).1 hnonce
    rw [ha, hb] at hsource
    cases hsource

end FlipFlop
