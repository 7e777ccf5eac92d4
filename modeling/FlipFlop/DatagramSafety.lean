import FlipFlop.Datagram
/-!
# DatagramSafety — `from_datagram` on any bytes (`data/src/lib.rs`)

What comes off the bus is any bytes.  `from_datagram` answers for all of them without a panic, what it answers is what
the cipher makes of every framed byte, and it looks at nothing behind the frame, so that the size of the buffer makes no
difference either (`fromDatagram_safe`).
-/
namespace FlipFlop

open Rust (HVec Panic)
open Postcard (Serde ser fromBytes deSlice takeN takeVarint usizeBits)
open Aead (AeadInPlace)

variable {N M : Nat}

/-- What `from_datagram` answers once the payload was handed to the cipher. -/
def decrypted (header : Header) : Option (HVec UInt8 N) → Except FromDatagramError (Header × HVec UInt8 N)
  | none => .error .cannotDecrypt
  | some payload => .ok (header, payload)

/-- The answer without the size of the buffer it came from. -/
def contents (result : Except FromDatagramError (Header × HVec UInt8 N)) :
    Except FromDatagramError (Header × List UInt8) :=
  result.map (Prod.map id HVec.toList)

/-! ## The frame -/

/-- Four header bytes, a length as a varint, and that many bytes. -/
def CompleteFrame (frame : List UInt8) : Prop :=
  ∃ h0 h1 h2 h3 length payload, frame = h0 :: h1 :: h2 :: h3 :: (length ++ payload) ∧
    takeVarint usizeBits length = .ok (payload.length, [])

/-- **A complete frame is read from any bytes that begin with it**, the length in its shortest form or not. -/
theorem CompleteFrame.fromBytes {frame : List UInt8} (h : CompleteFrame frame) :
    ∃ dataFrame, ∀ rest, Postcard.fromBytes (α := DataFrame) (frame ++ rest) = .ok dataFrame := by
  obtain ⟨h0, h1, h2, h3, length, payload, rfl, hlength⟩ := h
  refine ⟨{ header := (h0, h1, h2, h3), encryptedPayload := payload }, fun rest => ?_⟩
  obtain ⟨front, hfront, hread⟩ := Postcard.local_takeVarint usizeBits hlength
  rw [List.append_nil] at hfront
  subst hfront
  have hslice : deSlice (length ++ payload ++ rest) = .ok (payload, rest) := by
    rw [List.append_assoc, deSlice, hread]
    exact Postcard.takeN_append payload rest
  simp only [Postcard.fromBytes, Serde.de, List.cons_append, hslice]

/-- The buffer takes all of the bytes framed: what holds the frame holds its payload. -/
theorem extendFromSlice_framed {bs : List UInt8} (hN : bs.length = N) {dataFrame : DataFrame}
    (h : fromBytes bs = .ok dataFrame) :
    ∃ buf : HVec UInt8 N, HVec.new.extendFromSlice dataFrame.encryptedPayload = some buf ∧
      buf.toList = dataFrame.encryptedPayload := by
  have hlen := dataFrame_length_le h
  exact ⟨_, HVec.fromSlice_of_le (by omega), rfl⟩

/-! ## The payload -/

variable {cipher : AeadInPlace NONCE_SIZE MIC_SIZE} {filter : Header → Bool} {dataFrame : DataFrame}

/-- A frame that gets past its header is answered by what decrypting a buffer of its bytes gives. -/
theorem openFrame_decrypted {header : Header} (hparse : Header.parse dataFrame.header = .ok header)
    (hfilter : filter header = true) {buf : HVec UInt8 N} (hbuf : buf.toList = dataFrame.encryptedPayload)
    (cipher : LinkCipher) :
    openFrame N dataFrame filter cipher = decrypted header
      (cipher.decryptInPlace (newNonce dataFrame.header (dataFrame.encryptedPayload.length - MIC_SIZE))
        (associatedData dataFrame.header) buf) := by
  simp only [openFrame, hparse, hfilter, if_true, Aead.Cipher.decryptInPlace, hbuf]
  cases cipher.decrypt (newNonce dataFrame.header (dataFrame.encryptedPayload.length - MIC_SIZE))
      (associatedData dataFrame.header) dataFrame.encryptedPayload with
  | none => rfl
  | some plain => cases (HVec.fromSlice plain : Option (HVec UInt8 N)) <;> rfl

/-- **What is decrypted is four bytes shorter than what was framed.** -/
theorem openFrame_ok_length {header : Header} {payload : HVec UInt8 N}
    (h : openFrame N dataFrame filter cipher.toCipher = .ok (header, payload)) :
    payload.toList.length + MIC_SIZE = dataFrame.encryptedPayload.length := by
  obtain ⟨-, -, hdec⟩ := openFrame_ok h
  exact AeadInPlace.length_of_decrypt hdec

/-- Two buffers that hold a frame's payload open it alike. -/
theorem contents_openFrame (hN : dataFrame.encryptedPayload.length ≤ N) (hM : dataFrame.encryptedPayload.length ≤ M) :
    contents (openFrame N dataFrame filter cipher.toCipher)
      = contents (openFrame M dataFrame filter cipher.toCipher) := by
  unfold openFrame
  cases Header.parse dataFrame.header with
  | error e => rfl
  | ok header =>
    by_cases hfilter : filter header = true
    · simp only [hfilter, if_true]
      cases hdec : cipher.toCipher.decrypt (newNonce dataFrame.header (dataFrame.encryptedPayload.length - MIC_SIZE))
          (associatedData dataFrame.header) dataFrame.encryptedPayload with
      | none => rfl
      | some plain =>
        have hlen := AeadInPlace.length_of_decrypt hdec
        have hN' : plain.length ≤ N := by omega
        have hM' : plain.length ≤ M := by omega
        simp only [HVec.fromSlice_of_le hN', HVec.fromSlice_of_le hM']
        rfl
    · simp only [hfilter]
      rfl

/-- **`from_datagram` is safe on any bytes, and depends on the frame only**: it does not panic; the extend whose result
it drops succeeds with every byte framed, and past the header the answer is what decrypting those bytes gives; a payload
it returns is four bytes shorter than those, and nine shorter than the buffer at least; and two buffers of any sizes
that begin with the same complete frame get the same answer. -/
theorem fromDatagram_safe (cipher : AeadInPlace NONCE_SIZE MIC_SIZE) (filter : Header → Bool)
    (datagramBuf : Vector UInt8 N) :
    (∃ result, fromDatagram datagramBuf filter cipher.toCipher = .ok result ∧
      ∀ header payload, result = .ok (header, payload) →
        ∃ dataFrame : DataFrame, fromBytes datagramBuf.toList = .ok dataFrame ∧
        payload.toList.length + 4 = dataFrame.encryptedPayload.length ∧ payload.toList.length + 9 ≤ N) ∧
    (∀ dataFrame : DataFrame, fromBytes datagramBuf.toList = .ok dataFrame →
      fromDatagram datagramBuf filter cipher.toCipher = .ok (openFrame N dataFrame filter cipher.toCipher) ∧
      ∃ buf : HVec UInt8 N, HVec.new.extendFromSlice dataFrame.encryptedPayload = some buf ∧
        buf.toList = dataFrame.encryptedPayload ∧
        ∀ header, Header.parse dataFrame.header = .ok header → filter header = true →
          fromDatagram datagramBuf filter cipher.toCipher = .ok (decrypted header
            (cipher.toCipher.decryptInPlace
              (newNonce dataFrame.header (dataFrame.encryptedPayload.length - MIC_SIZE))
              (associatedData dataFrame.header) buf))) ∧
    ∀ (M : Nat) (other : Vector UInt8 M) (frame rest rest' : List UInt8), CompleteFrame frame →
      datagramBuf.toList = frame ++ rest → other.toList = frame ++ rest' →
      (fromDatagram datagramBuf filter cipher.toCipher).map contents
        = (fromDatagram other filter cipher.toCipher).map contents := by
  refine ⟨?_, ?_, ?_⟩
  · rw [fromDatagram_eq]
    refine ⟨_, rfl, ?_⟩
    intro header payload h
    cases hframe : fromBytes (α := DataFrame) datagramBuf.toList with
    | error e =>
      simp only [hframe] at h
      cases h
    | ok dataFrame =>
      simp only [hframe] at h
      have hopen : payload.toList.length + 4 = dataFrame.encryptedPayload.length := openFrame_ok_length h
      have hlen := dataFrame_length_le hframe
      rw [Vector.length_toList] at hlen
      exact ⟨dataFrame, rfl, hopen, by omega⟩
  · intro dataFrame h
    have hanswer : fromDatagram datagramBuf filter cipher.toCipher
        = .ok (openFrame N dataFrame filter cipher.toCipher) := by rw [fromDatagram_eq, h]
    obtain ⟨buf, hextend, hbuf⟩ := extendFromSlice_framed Vector.length_toList h
    refine ⟨hanswer, buf, hextend, hbuf, fun header hparse hfilter => ?_⟩
    rw [hanswer, openFrame_decrypted hparse hfilter hbuf]
  · intro M other frame rest rest' hframe hbuf hother
    obtain ⟨dataFrame, hread⟩ := hframe.fromBytes
    have hN := dataFrame_length_le (hbuf ▸ hread rest)
    have hM := dataFrame_length_le (hother ▸ hread rest')
    rw [Vector.length_toList] at hN hM
    rw [fromDatagram_eq, fromDatagram_eq, hbuf, hother, hread, hread]
    exact congrArg Except.ok (contents_openFrame (by omega) (by omega))

/-- The frame of the source's tests with its length of 13 in two bytes, where one is enough. -/
def overlongFrame : List UInt8 := [0, 1, 63, 252, 141, 0] ++ testSealed

theorem overlongFrame_complete : CompleteFrame overlongFrame :=
  ⟨0, 1, 63, 252, [141, 0], testSealed, rfl, by decide⟩

def overlongDatagram : Vector UInt8 32 := ⟨(overlongFrame ++ List.replicate 13 0).toArray, rfl⟩

theorem fromDatagram_safe_overlong_length :
    (∃ payload : HVec UInt8 32,
      fromDatagram overlongDatagram (fun h => h.serverAddress == 255) (AesCcm.new testKey).toCipher
        = .ok (.ok (testHeader, payload)) ∧ payload.toList.length + 9 ≤ 32) ∧
    (∃ buf : HVec UInt8 32, buf.toList = testSealed ∧
      fromDatagram overlongDatagram (fun h => h.serverAddress == 255) (AesCcm.new testKey).toCipher
        = .ok (decrypted testHeader ((AesCcm.new testKey).toCipher.decryptInPlace testNonce [0, 1, 63, 252] buf))) ∧
    (fromDatagram overlongDatagram (fun h => h.serverAddress == 255) (AesCcm.new testKey).toCipher).map contents
      = (fromDatagram (⟨overlongFrame.toArray, rfl⟩ : Vector UInt8 19) (fun h => h.serverAddress == 255)
        (AesCcm.new testKey).toCipher).map contents := by
  obtain ⟨⟨result, hresult, hpayload⟩, hframed, halike⟩ :=
    fromDatagram_safe (AesCcm.new testKey) (fun h => h.serverAddress == 255) overlongDatagram
  obtain ⟨-, buf, -, hbuf, hdecrypted⟩ := hframed ⟨(0, 1, 63, 252), testSealed⟩ (by decide)
  have hok : fromDatagram overlongDatagram (fun h => h.serverAddress == 255) (AesCcm.new testKey).toCipher
      = .ok (.ok (testHeader, ⟨testPayload, by decide⟩)) := by decide +kernel
  have hsame : result = .ok (testHeader, ⟨testPayload, by decide⟩) := Except.ok.inj (hresult.symm.trans hok)
  obtain ⟨-, -, -, hshort⟩ := hpayload _ _ hsame
  exact ⟨⟨_, hok, hshort⟩, ⟨buf, hbuf, hdecrypted testHeader (by decide) (by decide)⟩,
    halike 19 _ overlongFrame _ [] overlongFrame_complete rfl rfl⟩

end FlipFlop
