import FlipFlop.Aes
import FlipFlop.Ccm
import FlipFlop.Serde
import FlipFlop.Header
/-!
# Datagram — `from_datagram` and `to_datagram` (`data/src/lib.rs`)

The data frame on the wire is the four header bytes and the encrypted payload as a slice.  Both directions are modelled
with their panics: `to_datagram` unwraps three times, `from_datagram` subtracts once and drops one `Result`.  The cipher
is any cipher of the link's sizes; `AesCcm.new` makes the one of the tests and the examples.
-/
namespace FlipFlop

open Rust (HVec Panic unwrap)
open Postcard (Serde ser fromBytes toSlice serSlice deSlice usizeBits varintLen)
open Aead (AeadInPlace Cipher)

def HEADER_SIZE : Nat := 6
def MIC_SIZE : Nat := 4
def NONCE_SIZE : Nat := 7

/-- A cipher with this link's sizes, under one key. -/
abbrev LinkCipher := Cipher NONCE_SIZE MIC_SIZE

/-- `AesCcm::new`: what the tests and the examples give `to_datagram` and `from_datagram` for a cipher. -/
def AesCcm.new (key : Vector UInt8 16) : AeadInPlace NONCE_SIZE MIC_SIZE :=
  Ccm.aead (Aes.encryptBlock key) NONCE_SIZE MIC_SIZE

theorem AesCcm.new_lawful (key : Vector UInt8 16) : (AesCcm.new key).toCipher.Lawful :=
  Ccm.aead_lawful _ NONCE_SIZE MIC_SIZE

structure DataFrame where
  header : Packed
  encryptedPayload : List UInt8
  deriving Repr, DecidableEq

instance : Serde DataFrame where
  ser f := ser f.header ++ serSlice f.encryptedPayload
  de bs :=
    match Serde.de (α := Packed) bs with
    | .error e => .error e
    | .ok (header, rest) =>
      match deSlice rest with
      | .error e => .error e
      | .ok (encryptedPayload, rest) => .ok (⟨header, encryptedPayload⟩, rest)

/-- Construct a 7 byte nonce from the header and length of payload; the length is cut to a byte. -/
def newNonce (header : Packed) (payloadLen : Nat) : Vector UInt8 NONCE_SIZE :=
  #v[0x01, header.1, header.2.1, header.2.2.1, header.2.2.2, UInt8.ofNat payloadLen, 0x00]

def associatedData (header : Packed) : List UInt8 := [header.1, header.2.1, header.2.2.1, header.2.2.2]

inductive FromDatagramError
  | cannotParseDataFrame (e : Postcard.Error)
  | cannotParseHeader
  | filterDoesNotMatch
  | cannotDecrypt
  deriving Repr, DecidableEq

/-- `a - b` on `usize`. -/
def subUsize (a b : Nat) : Except Panic Nat := if b ≤ a then .ok (a - b) else .error .arith

variable {N : Nat}

def fromDatagram (datagramBuf : Vector UInt8 N) (filter : Header → Bool) (cipher : LinkCipher) :
    Except Panic (Except FromDatagramError (Header × HVec UInt8 N)) := do
  match fromBytes (α := DataFrame) datagramBuf.toList with
  | .error e => return .error (.cannotParseDataFrame e)
  | .ok dataFrame =>
    match Header.parse dataFrame.header with
    | .error _ => return .error .cannotParseHeader
    | .ok header =>
      if !filter header then return .error .filterDoesNotMatch
      let payloadLen ← subUsize (max dataFrame.encryptedPayload.length MIC_SIZE) MIC_SIZE
      let nonce := newNonce dataFrame.header payloadLen
      -- `let _ = ..`: a failed extend would leave the buffer empty
      let cryptPayloadBuf := (HVec.new.extendFromSlice dataFrame.encryptedPayload).getD HVec.new
      match cipher.decryptInPlace nonce (associatedData dataFrame.header) cryptPayloadBuf with
      | none => return .error .cannotDecrypt
      | some cryptPayloadBuf => return .ok (header, cryptPayloadBuf)

def toDatagram (cipher : LinkCipher) (header : Header) (payloadBuf : List UInt8) (datagramBuf : Vector UInt8 N) :
    Except Panic (Vector UInt8 N) := do
  let packedHeader := header.toPacked
  let nonce := newNonce packedHeader payloadBuf.length
  let cryptPayloadBuf ← unwrap ((HVec.new : HVec UInt8 N).extendFromSlice payloadBuf)
  let cryptPayloadBuf ← unwrap (cipher.encryptInPlace nonce (associatedData packedHeader) cryptPayloadBuf)
  let dataFrame : DataFrame := { header := packedHeader, encryptedPayload := cryptPayloadBuf.toList }
  unwrap (toSlice (ser dataFrame) datagramBuf)

/-! ## The frame on the wire -/

theorem ser_dataFrame (f : DataFrame) : ser f = ser f.header ++ serSlice f.encryptedPayload := rfl

theorem fromBytes_dataFrame {f : DataFrame} (hf : f.encryptedPayload.length < 2 ^ usizeBits) (rest : List UInt8) :
    fromBytes (ser f ++ rest) = .ok f := by
  simp only [fromBytes, Serde.de, Serde.ser, List.cons_append, List.nil_append]
  rw [Postcard.deSlice_serSlice hf]

theorem length_ser_dataFrame {f : DataFrame} (hf : f.encryptedPayload.length < 2 ^ usizeBits) :
    (ser f).length = 4 + varintLen f.encryptedPayload.length + f.encryptedPayload.length := by
  have hheader : (ser f.header).length = 4 := rfl
  rw [ser_dataFrame, List.length_append, Postcard.length_serSlice hf, hheader]
  omega

theorem dataFrame_length_le {bs : List UInt8} {f : DataFrame} (h : fromBytes bs = .ok f) :
    f.encryptedPayload.length + 5 ≤ bs.length := by
  unfold fromBytes at h
  split at h
  · cases h
  rename_i f' rest hde
  cases h
  simp only [Serde.de] at hde
  split at hde
  · cases hde
  rename_i header left hh
  split at hde
  · cases hde
  rename_i xs rest' hs
  cases hde
  have hxs := Postcard.deSlice_length hs
  -- four bytes stand in front of the slice
  rcases bs with _ | ⟨b0, _ | ⟨b1, _ | ⟨b2, _ | ⟨b3, tail⟩⟩⟩⟩
  · cases hh
  · cases hh
  · cases hh
  · cases hh
  · cases hh
    simp only [List.length_cons] at hxs ⊢
    omega

/-! ## `from_datagram`, past its frame -/

/-- What `from_datagram` answers for a frame it could read. -/
def openFrame (N : Nat) (dataFrame : DataFrame) (filter : Header → Bool) (cipher : LinkCipher) :
    Except FromDatagramError (Header × HVec UInt8 N) :=
  match Header.parse dataFrame.header with
  | .error _ => .error .cannotParseHeader
  | .ok header =>
    if filter header = true then
      match cipher.decrypt (newNonce dataFrame.header (dataFrame.encryptedPayload.length - MIC_SIZE))
          (associatedData dataFrame.header) dataFrame.encryptedPayload with
      | none => .error .cannotDecrypt
      | some plain =>
        match HVec.fromSlice plain with
        | none => .error .cannotDecrypt
        | some payload => .ok (header, payload)
    else .error .filterDoesNotMatch

theorem subUsize_max (n : Nat) : subUsize (max n MIC_SIZE) MIC_SIZE = .ok (n - MIC_SIZE) := by
  unfold subUsize
  rw [if_pos (by omega)]
  congr 1
  omega

/-- **`from_datagram` never panics**: the subtraction is in range and the buffer takes every framed byte, so the
answer is the frame's. -/
theorem fromDatagram_eq (datagramBuf : Vector UInt8 N) (filter : Header → Bool) (cipher : LinkCipher) :
    fromDatagram datagramBuf filter cipher = .ok
      (match fromBytes (α := DataFrame) datagramBuf.toList with
       | .error e => .error (.cannotParseDataFrame e)
       | .ok dataFrame => openFrame N dataFrame filter cipher) := by
  unfold fromDatagram
  cases hf : fromBytes (α := DataFrame) datagramBuf.toList with
  | error e => rfl
  | ok f =>
    have hlen := dataFrame_length_le hf
    rw [Vector.length_toList] at hlen
    have hext : (HVec.new.extendFromSlice f.encryptedPayload : Option (HVec UInt8 N))
        = some ⟨f.encryptedPayload, by omega⟩ := HVec.fromSlice_of_le _
    simp only [openFrame, subUsize_max, hext, Option.getD_some]
    cases hp : Header.parse f.header with
    | error e => rfl
    | ok header =>
      cases hfilter : filter header with
      | false => simp [hfilter]; rfl
      | true =>
        simp only [hfilter, Cipher.decryptInPlace, Bool.not_true, Bool.false_eq_true, if_false, if_true, bind,
          Except.bind]
        cases cipher.decrypt (newNonce f.header (f.encryptedPayload.length - MIC_SIZE)) (associatedData f.header)
            f.encryptedPayload with
        | none => rfl
        | some plain =>
          simp only
          cases (HVec.fromSlice plain : Option (HVec UInt8 N)) <;> rfl

/-! ## The round trip -/

/-- The ciphertext a `to_datagram` call puts into its frame. -/
def sealedPayload (cipher : LinkCipher) (header : Header) (payloadBuf : List UInt8) : List UInt8 :=
  cipher.encrypt (newNonce header.toPacked payloadBuf.length) (associatedData header.toPacked) payloadBuf

def frameOf (cipher : LinkCipher) (header : Header) (payloadBuf : List UInt8) : DataFrame :=
  { header := header.toPacked, encryptedPayload := sealedPayload cipher header payloadBuf }

/-- The bytes a frame takes: header, length, payload, MIC. -/
def frameLen (payloadLen : Nat) : Nat := 4 + varintLen (payloadLen + MIC_SIZE) + payloadLen + MIC_SIZE

variable {cipher : LinkCipher}

theorem length_sealedPayload (hc : cipher.Lawful) (header : Header) (payloadBuf : List UInt8) :
    (sealedPayload cipher header payloadBuf).length = payloadBuf.length + MIC_SIZE :=
  hc.encrypt_length _ _ _

theorem length_ser_frameOf (hc : cipher.Lawful) (header : Header) (payloadBuf : List UInt8)
    (h : payloadBuf.length + MIC_SIZE < 2 ^ usizeBits) :
    (ser (frameOf cipher header payloadBuf)).length = frameLen payloadBuf.length := by
  have hlen := length_sealedPayload hc header payloadBuf
  rw [length_ser_dataFrame (by simp only [frameOf, hlen]; exact h)]
  simp only [frameOf, hlen, frameLen]
  omega

/-- **`to_datagram` on a buffer the frame fits**: the frame, and behind it what the buffer held. -/
theorem toDatagram_of_le (hc : cipher.Lawful) (hN : N < 2 ^ usizeBits) (header : Header) (payloadBuf : List UInt8)
    (datagramBuf : Vector UInt8 N) (h : frameLen payloadBuf.length ≤ N) :
    ∃ out, toDatagram cipher header payloadBuf datagramBuf = .ok out ∧
      out.toList = ser (frameOf cipher header payloadBuf) ++ datagramBuf.toList.drop (frameLen payloadBuf.length) := by
  have hroom : payloadBuf.length + MIC_SIZE ≤ N := by unfold frameLen at h; omega
  have hlen := length_ser_frameOf hc header payloadBuf (by omega)
  have hext : ((HVec.new : HVec UInt8 N).extendFromSlice payloadBuf) = some ⟨payloadBuf, by omega⟩ :=
    HVec.fromSlice_of_le _
  obtain ⟨sealed, hseal, hsealed⟩ := hc.encryptInPlace_of_le (newNonce header.toPacked payloadBuf.length)
    (associatedData header.toPacked) (⟨payloadBuf, by omega⟩ : HVec UInt8 N) hroom
  obtain ⟨out, hout, houtl⟩ := Rust.writeFront_of_le (ser (frameOf cipher header payloadBuf)) datagramBuf
    (by rw [hlen]; exact h)
  refine ⟨out, ?_, by rw [houtl, hlen]⟩
  have hframe : (⟨header.toPacked, sealed.toList⟩ : DataFrame) = frameOf cipher header payloadBuf := by
    rw [hsealed]; rfl
  unfold toDatagram
  simp only [hext, unwrap, hseal, hframe, bind, Except.bind]
  rw [toSlice, hout]

/-- **`to_datagram` on a smaller buffer panics**, at whichever of its three limits is met first. -/
theorem toDatagram_of_gt (hc : cipher.Lawful) (hN : N < 2 ^ usizeBits) (header : Header) (payloadBuf : List UInt8)
    (datagramBuf : Vector UInt8 N) (h : N < frameLen payloadBuf.length) :
    toDatagram cipher header payloadBuf datagramBuf = .error .unwrap := by
  unfold toDatagram
  by_cases hext : payloadBuf.length ≤ N
  · have hext' : ((HVec.new : HVec UInt8 N).extendFromSlice payloadBuf) = some ⟨payloadBuf, hext⟩ :=
      HVec.fromSlice_of_le _
    by_cases htag : payloadBuf.length + MIC_SIZE ≤ N
    · obtain ⟨sealed, hseal, hsealed⟩ := hc.encryptInPlace_of_le (newNonce header.toPacked payloadBuf.length)
        (associatedData header.toPacked) (⟨payloadBuf, hext⟩ : HVec UInt8 N) htag
      have hframe : (⟨header.toPacked, sealed.toList⟩ : DataFrame) = frameOf cipher header payloadBuf := by
        rw [hsealed]; rfl
      have hlen := length_ser_frameOf hc header payloadBuf (by omega)
      have hfull : toSlice (ser (frameOf cipher header payloadBuf)) datagramBuf = none :=
        Rust.writeFront_of_gt (by rw [hlen]; exact h)
      simp only [hext', unwrap, hseal, hframe, hfull, bind, Except.bind]
    · have hseal := hc.encryptInPlace_of_gt (newNonce header.toPacked payloadBuf.length)
        (associatedData header.toPacked) (⟨payloadBuf, hext⟩ : HVec UInt8 N) (show N < payloadBuf.length + _ by omega)
      simp only [hext', unwrap, hseal, bind, Except.bind]
  · have hext' : ((HVec.new : HVec UInt8 N).extendFromSlice payloadBuf) = none :=
      HVec.fromSlice_of_gt (by omega)
    simp only [hext', unwrap, bind, Except.bind]

/-- A buffer that starts with a frame is answered from that frame; what follows it is not looked at. -/
theorem fromDatagram_of_frame {datagramBuf : Vector UInt8 N} {f : DataFrame} {rest : List UInt8}
    (hbuf : datagramBuf.toList = ser f ++ rest) (hf : f.encryptedPayload.length < 2 ^ usizeBits)
    (filter : Header → Bool) (cipher : LinkCipher) :
    fromDatagram datagramBuf filter cipher = .ok (openFrame N f filter cipher) := by
  rw [fromDatagram_eq, hbuf, fromBytes_dataFrame hf]

theorem openFrame_frameOf (hc : cipher.Lawful) {header : Header} (hv : header.version = 0) (hp : header.serverPort ≤ 7)
    {payloadBuf : List UInt8} (hN : payloadBuf.length ≤ N) {filter : Header → Bool} (hf : filter header = true) :
    openFrame N (frameOf cipher header payloadBuf) filter cipher = .ok (header, ⟨payloadBuf, hN⟩) := by
  have hlen : (sealedPayload cipher header payloadBuf).length - MIC_SIZE = payloadBuf.length := by
    rw [length_sealedPayload hc]; omega
  have hdec : cipher.decrypt (newNonce header.toPacked payloadBuf.length) (associatedData header.toPacked)
      (sealedPayload cipher header payloadBuf) = some payloadBuf := hc.decrypt_encrypt _ _ _
  simp only [openFrame, frameOf, parse_toPacked_self hv hp, hf, if_true, hlen, hdec, HVec.fromSlice_of_le hN]

/-- A frame whose header the filter does not want is not opened, under whatever key. -/
theorem openFrame_frameOf_filtered {header : Header} (hv : header.version = 0) (hp : header.serverPort ≤ 7)
    (payloadBuf : List UInt8) {filter : Header → Bool} (hf : filter header = false) (other : LinkCipher) :
    openFrame N (frameOf cipher header payloadBuf) filter other = .error .filterDoesNotMatch := by
  simp only [openFrame, frameOf, parse_toPacked_self hv hp, hf]
  rfl

/-- Nor is one that another cipher does not decrypt. -/
theorem openFrame_frameOf_sealed (hc : cipher.Lawful) {header : Header} (hv : header.version = 0)
    (hp : header.serverPort ≤ 7) (payloadBuf : List UInt8) {filter : Header → Bool} (hf : filter header = true)
    {other : LinkCipher} (hsep : ∀ nonce ad plain, other.decrypt nonce ad (cipher.encrypt nonce ad plain) = none) :
    openFrame N (frameOf cipher header payloadBuf) filter other = .error .cannotDecrypt := by
  have hlen : (sealedPayload cipher header payloadBuf).length - MIC_SIZE = payloadBuf.length := by
    rw [length_sealedPayload hc]; omega
  have hdec : other.decrypt (newNonce header.toPacked payloadBuf.length) (associatedData header.toPacked)
      (sealedPayload cipher header payloadBuf) = none := hsep _ _ _
  simp only [openFrame, frameOf, parse_toPacked_self hv hp, hf, if_true, hlen, hdec]

/-- **The datagram round trip**: `to_datagram` completes exactly when the frame fits the buffer; it then leaves every
byte behind the frame alone, and `from_datagram` reads the header and the payload back. -/
theorem toDatagram_round_trip (hc : cipher.Lawful) (hN : N < 2 ^ usizeBits) (header : Header)
    (hv : header.version = 0) (hp : header.serverPort ≤ 7) (payloadBuf : List UInt8) (datagramBuf : Vector UInt8 N)
    (filter : Header → Bool) (hf : filter header = true) :
    ((∃ out, toDatagram cipher header payloadBuf datagramBuf = .ok out) ↔
      4 + varintLen (payloadBuf.length + 4) + payloadBuf.length + 4 ≤ N) ∧
    ∀ out, toDatagram cipher header payloadBuf datagramBuf = .ok out →
      (∀ i, 4 + varintLen (payloadBuf.length + 4) + payloadBuf.length + 4 ≤ i → out[i]? = datagramBuf[i]?) ∧
      ∃ payload, fromDatagram out filter cipher = .ok (.ok (header, payload)) ∧ payload.toList = payloadBuf := by
  have hlimit : 4 + varintLen (payloadBuf.length + 4) + payloadBuf.length + 4 = frameLen payloadBuf.length := rfl
  rw [hlimit]
  by_cases hfit : frameLen payloadBuf.length ≤ N
  · obtain ⟨out, hout, houtl⟩ := toDatagram_of_le hc hN header payloadBuf datagramBuf hfit
    refine ⟨⟨fun _ => hfit, fun _ => ⟨out, hout⟩⟩, fun out' hout' => ?_⟩
    obtain rfl : out = out' := by rw [hout] at hout'; exact Except.ok.inj hout'
    have hroom : payloadBuf.length + MIC_SIZE ≤ N := by unfold frameLen at hfit; omega
    have hlen := length_ser_frameOf hc header payloadBuf (by omega)
    refine ⟨fun i hi => ?_, ⟨payloadBuf, by omega⟩, ?_, rfl⟩
    · rw [← Vector.getElem?_toList, ← Vector.getElem?_toList, houtl, List.getElem?_append_right (by omega),
        List.getElem?_drop, hlen]
      congr 1
      omega
    · rw [fromDatagram_of_frame houtl (by rw [frameOf, length_sealedPayload hc]; omega)]
      rw [openFrame_frameOf hc hv hp (by omega) hf]
  · have hpanic := toDatagram_of_gt hc hN header payloadBuf datagramBuf (by omega)
    refine ⟨⟨fun ⟨out, hout⟩ => ?_, fun h => absurd h hfit⟩, fun out hout => ?_⟩
    · rw [hpanic] at hout; cases hout
    · rw [hpanic] at hout; cases hout

/-! ### The source's test vector -/

/-- `b"0123456789ABCDEF"`. -/
def testKey : Vector UInt8 16 := #v[48, 49, 50, 51, 52, 53, 54, 55, 56, 57, 65, 66, 67, 68, 69, 70]

def testHeader : Header := ⟨0, .server, 255, 7, 1⟩

/-- `b"some data"`. -/
def testPayload : List UInt8 := [115, 111, 109, 101, 32, 100, 97, 116, 97]

def testSealed : List UInt8 := [145, 171, 66, 62, 129, 223, 68, 168, 6, 69, 126, 97, 64]

def testNonce : Vector UInt8 NONCE_SIZE := newNonce (0, 1, 63, 252) 9

theorem toDatagram_round_trip_test_vector :
    4 + varintLen (testPayload.length + 4) + testPayload.length + 4 ≤ 32 ∧
    ∃ out, toDatagram (AesCcm.new testKey).toCipher testHeader testPayload (Vector.replicate 32 (0 : UInt8))
        = .ok out ∧
      ∃ payload, fromDatagram out (fun h => h.source == .server && h.serverAddress == 255 && h.serverPort == 7)
        (AesCcm.new testKey).toCipher = .ok (.ok (testHeader, payload)) ∧ payload.toList = testPayload := by
  have hfit : 4 + varintLen (testPayload.length + 4) + testPayload.length + 4 ≤ 32 := by
    rw [Postcard.varintLen_of_lt (by decide)]; decide
  obtain ⟨hiff, hread⟩ := toDatagram_round_trip (AesCcm.new_lawful testKey) (N := 32) (by decide) testHeader rfl (by decide)
    testPayload (Vector.replicate 32 (0 : UInt8))
    (fun h => h.source == .server && h.serverAddress == 255 && h.serverPort == 7) (by decide)
  obtain ⟨out, hout⟩ := hiff.2 hfit
  exact ⟨hfit, out, hout, (hread out hout).2⟩

/-! ## Authenticity -/

/-- What the honest `to_datagram` calls of `calls` sealed: payload, nonce and associated data as the call forms them. -/
def SealedBy (calls : Header → List UInt8 → Prop) (nonce : Vector UInt8 NONCE_SIZE) (ad plain : List UInt8) : Prop :=
  ∃ header, calls header plain ∧ nonce = newNonce header.toPacked plain.length ∧ ad = associatedData header.toPacked

theorem associatedData_injective {b b' : Packed} (h : associatedData b = associatedData b') : b = b' := by
  simp only [associatedData, List.cons.injEq, and_true] at h
  obtain ⟨h0, h1, h2, h3⟩ := h
  exact Prod.ext h0 (Prod.ext h1 (Prod.ext h2 h3))

/-- What an accepted frame passed: its header parsed, the filter took it, its payload opened. -/
theorem openFrame_ok {f : DataFrame} {filter : Header → Bool} {header : Header} {payload : HVec UInt8 N}
    (h : openFrame N f filter cipher = .ok (header, payload)) :
    Header.parse f.header = .ok header ∧ filter header = true ∧
    cipher.decrypt (newNonce f.header (f.encryptedPayload.length - MIC_SIZE)) (associatedData f.header)
      f.encryptedPayload = some payload.toList := by
  unfold openFrame at h
  split at h
  · cases h
  rename_i header' hparse
  split at h
  · rename_i hfilter
    split at h
    · cases h
    rename_i plain hdec
    split at h
    · cases h
    rename_i payload' hslice
    cases h
    have hplain : payload.toList = plain := by
      by_cases hle : plain.length ≤ N
      · rw [HVec.fromSlice_of_le hle] at hslice
        cases hslice; rfl
      · rw [HVec.fromSlice_of_gt (by omega)] at hslice
        cases hslice
    exact ⟨hparse, hfilter, by rw [hdec, hplain]⟩
  · cases h

/-- **Authenticated decoding**: under an ideal cipher, whatever bytes arrive, an accepted datagram carries the payload
of an honest call, and that call's direction, address, port modulo eight and counter. -/
theorem fromDatagram_authentic {calls : Header → List UInt8 → Prop} (hideal : cipher.Ideal (SealedBy calls))
    (datagramBuf : Vector UInt8 N) (filter : Header → Bool) (header : Header) (payload : HVec UInt8 N)
    (hok : fromDatagram datagramBuf filter cipher = .ok (.ok (header, payload))) :
    filter header = true ∧ ∃ sent, calls sent payload.toList ∧ sent.source = header.source ∧
      sent.serverAddress = header.serverAddress ∧ sent.serverPort % 8 = header.serverPort ∧
      sent.frameCounter = header.frameCounter := by
  rw [fromDatagram_eq] at hok
  cases hframe : fromBytes (α := DataFrame) datagramBuf.toList with
  | error e => rw [hframe] at hok; cases hok
  | ok f =>
    rw [hframe] at hok
    obtain ⟨hparse, hfilter, hdec⟩ := openFrame_ok (Except.ok.inj hok)
    obtain ⟨⟨sent, hcall, -, had⟩, -⟩ := hideal _ _ _ _ hdec
    refine ⟨hfilter, sent, hcall, ?_⟩
    -- the associated data pin the header bytes, so `header` is what the sender's own bytes parse to
    rw [associatedData_injective had, parse_toPacked] at hparse
    cases hparse
    exact ⟨rfl, rfl, rfl, rfl⟩

/-- The cipher of the tests, which opens nothing but the frame they give. -/
def testCipher : LinkCipher where
  encrypt := (AesCcm.new testKey).toCipher.encrypt
  decrypt nonce ad sealed :=
    if nonce = testNonce ∧ ad = [0, 1, 63, 252] ∧ sealed = testSealed then some testPayload else none

theorem testCipher_encrypt : testCipher.encrypt testNonce [0, 1, 63, 252] testPayload = testSealed := by decide +kernel

theorem testCipher_ideal :
    testCipher.Ideal (SealedBy (fun h p => h = testHeader ∧ p = testPayload)) := by
  intro nonce ad sealed plain h
  simp only [testCipher] at h
  split at h
  · rename_i hs
    obtain ⟨rfl, rfl, rfl⟩ := hs
    cases h
    exact ⟨⟨testHeader, ⟨rfl, rfl⟩, by decide, by decide⟩, testCipher_encrypt⟩
  · cases h

/-- The datagram of the source's `test_datagram_deserialisation`. -/
def testDatagram : Vector UInt8 32 :=
  #v[0, 1, 63, 252, 13, 145, 171, 66, 62, 129, 223, 68, 168, 6, 69, 126, 97, 64, 0, 0, 0, 0, 0, 0, 0, 0, 0, 0, 0, 0, 0,
    0]

theorem fromDatagram_authentic_test_vector :
    ∃ payload : HVec UInt8 32,
      fromDatagram testDatagram (fun h => h.serverAddress == 255) testCipher
        = .ok (.ok (testHeader, payload)) ∧
      ∃ sent, (sent = testHeader ∧ payload.toList = testPayload) ∧ sent.source = testHeader.source ∧
        sent.serverAddress = testHeader.serverAddress ∧ sent.serverPort % 8 = testHeader.serverPort ∧
        sent.frameCounter = testHeader.frameCounter :=
  have hok : fromDatagram testDatagram (fun h => h.serverAddress == 255) testCipher
      = .ok (.ok (testHeader, ⟨testPayload, by decide⟩)) := by decide +kernel
  ⟨⟨testPayload, by decide⟩, hok, (fromDatagram_authentic testCipher_ideal testDatagram _ _ _ hok).2⟩

end FlipFlop
