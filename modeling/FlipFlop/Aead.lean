import FlipFlop.Heapless
/-!
# Aead — authenticated encryption as its callers see it

A cipher under one key: `encrypt` gives the ciphertext with its tag behind it, `decrypt` takes both and may refuse.
What a caller may rely on is stated apart from the operations: `Lawful` (decryption undoes encryption, the tag has its
size), `Ideal` (nothing but what was sealed opens) and `Separate` (what one key seals no other opens).  `AeadInPlace` is
the trait such a cipher comes from, with no promise but its types; where its two halves undo one another the cipher is
lawful (`AeadInPlace.toCipher_lawful`).
-/
namespace Aead

open Rust (HVec)

structure Cipher (nonceSize tagSize : Nat) where
  encrypt : Vector UInt8 nonceSize → List UInt8 → List UInt8 → List UInt8
  decrypt : Vector UInt8 nonceSize → List UInt8 → List UInt8 → Option (List UInt8)

variable {ns ts N : Nat}

/-- `AeadInPlace::encrypt_in_place`: fails when the buffer cannot hold the tag as well. -/
def Cipher.encryptInPlace (c : Cipher ns ts) (nonce : Vector UInt8 ns) (ad : List UInt8) (buf : HVec UInt8 N) :
    Option (HVec UInt8 N) :=
  HVec.fromSlice (c.encrypt nonce ad buf.toList)

/-- `AeadInPlace::decrypt_in_place`. -/
def Cipher.decryptInPlace (c : Cipher ns ts) (nonce : Vector UInt8 ns) (ad : List UInt8) (buf : HVec UInt8 N) :
    Option (HVec UInt8 N) :=
  match c.decrypt nonce ad buf.toList with
  | none => none
  | some plain => HVec.fromSlice plain

structure Cipher.Lawful (c : Cipher ns ts) : Prop where
  encrypt_length : ∀ nonce ad plain, (c.encrypt nonce ad plain).length = plain.length + ts
  decrypt_encrypt : ∀ nonce ad plain, c.decrypt nonce ad (c.encrypt nonce ad plain) = some plain

/-- Decryption succeeds only on what was sealed, with the nonce and the associated data it was sealed with. -/
def Cipher.Ideal (c : Cipher ns ts) (Sealed : Vector UInt8 ns → List UInt8 → List UInt8 → Prop) : Prop :=
  ∀ nonce ad sealed plain, c.decrypt nonce ad sealed = some plain →
    Sealed nonce ad plain ∧ c.encrypt nonce ad plain = sealed

/-- A family of ciphers, one a key, in which a ciphertext decrypts only under the key it was encrypted with. -/
def Separate {κ : Type} (cipher : κ → Cipher ns ts) (keys : κ → Prop) : Prop :=
  ∀ k k', keys k → keys k' → k ≠ k' → ∀ nonce ad plain, (cipher k').decrypt nonce ad ((cipher k).encrypt nonce ad plain) = none

theorem Cipher.Lawful.encryptInPlace_of_le {c : Cipher ns ts} (hc : c.Lawful) (nonce : Vector UInt8 ns)
    (ad : List UInt8) (buf : HVec UInt8 N) (h : buf.toList.length + ts ≤ N) :
    ∃ out, c.encryptInPlace nonce ad buf = some out ∧ out.toList = c.encrypt nonce ad buf.toList :=
  ⟨_, HVec.fromSlice_of_le (by rw [hc.encrypt_length]; exact h), rfl⟩

theorem Cipher.Lawful.encryptInPlace_of_gt {c : Cipher ns ts} (hc : c.Lawful) (nonce : Vector UInt8 ns)
    (ad : List UInt8) (buf : HVec UInt8 N) (h : N < buf.toList.length + ts) :
    c.encryptInPlace nonce ad buf = none :=
  HVec.fromSlice_of_gt (by rw [hc.encrypt_length]; exact h)

/-! ## Ciphers that work in place -/

/-- What an implementation of `AeadInPlace` provides: bytes encrypted and decrypted where they stand, the tag apart. -/
structure AeadInPlace (nonceSize tagSize : Nat) where
  encryptInPlaceDetached : Vector UInt8 nonceSize → List UInt8 → (n : Nat) → Vector UInt8 n →
    Vector UInt8 n × Vector UInt8 tagSize
  decryptInPlaceDetached : Vector UInt8 nonceSize → List UInt8 → (n : Nat) → Vector UInt8 n → Vector UInt8 tagSize →
    Option (Vector UInt8 n)

/-- What the trait makes of it: the tag goes behind the bytes, and is cut off again before they are decrypted; bytes that
are fewer than a tag are refused. -/
def AeadInPlace.toCipher (c : AeadInPlace ns ts) : Cipher ns ts where
  encrypt nonce ad plain :=
    let (sealed, tag) := c.encryptInPlaceDetached nonce ad plain.length ⟨plain.toArray, rfl⟩
    sealed.toList ++ tag.toList
  decrypt nonce ad sealed :=
    if h : ts ≤ sealed.length then
      (c.decryptInPlaceDetached nonce ad (sealed.length - ts)
        ⟨(sealed.take (sealed.length - ts)).toArray, by simp⟩
        ⟨(sealed.drop (sealed.length - ts)).toArray, by simp; omega⟩).map (fun plain => plain.toList)
    else none

theorem AeadInPlace.length_of_decrypt {c : AeadInPlace ns ts} {nonce : Vector UInt8 ns} {ad sealed plain : List UInt8}
    (h : c.toCipher.decrypt nonce ad sealed = some plain) : plain.length + ts = sealed.length := by
  simp only [toCipher] at h
  split at h
  · rename_i hle
    obtain ⟨out, -, rfl⟩ := Option.map_eq_some_iff.1 h
    rw [Vector.length_toList]
    omega
  · cases h

/-- The two parts a ciphertext is made of are what is decrypted. -/
theorem AeadInPlace.toCipher_decrypt_append (c : AeadInPlace ns ts) (nonce : Vector UInt8 ns) (ad : List UInt8)
    (sealed : Vector UInt8 N) (tag : Vector UInt8 ts) :
    c.toCipher.decrypt nonce ad (sealed.toList ++ tag.toList)
      = (c.decryptInPlaceDetached nonce ad N sealed tag).map (fun plain => plain.toList) := by
  -- the length is computed from the bytes in `toCipher`; for any `m` that equals `N` the parts are the same
  have hparts : ∀ (m : Nat) (v : Vector UInt8 m) (t : Vector UInt8 ts), m = N → v.toList = sealed.toList →
      t.toList = tag.toList → (c.decryptInPlaceDetached nonce ad m v t).map (fun plain => plain.toList)
        = (c.decryptInPlaceDetached nonce ad N sealed tag).map (fun plain => plain.toList) := by
    rintro m v t rfl hv ht
    rw [Vector.toList_inj.1 hv, Vector.toList_inj.1 ht]
  have hlen : (sealed.toList ++ tag.toList).length - ts = N := by simp
  simp only [toCipher]
  rw [dif_pos (by simp)]
  exact hparts _ _ _ hlen (by simp) (by simp)

/-- **A cipher that works in place is lawful when what it encrypted decrypts to what it was.** -/
theorem AeadInPlace.toCipher_lawful {c : AeadInPlace ns ts}
    (h : ∀ nonce ad n (plain : Vector UInt8 n), c.decryptInPlaceDetached nonce ad n
      (c.encryptInPlaceDetached nonce ad n plain).1 (c.encryptInPlaceDetached nonce ad n plain).2 = some plain) :
    c.toCipher.Lawful where
  encrypt_length nonce ad plain := by simp [toCipher]
  decrypt_encrypt nonce ad plain := by
    have happend := toCipher_decrypt_append c nonce ad
      (c.encryptInPlaceDetached nonce ad plain.length ⟨plain.toArray, rfl⟩).1
      (c.encryptInPlaceDetached nonce ad plain.length ⟨plain.toArray, rfl⟩).2
    rw [h] at happend
    exact happend

end Aead
