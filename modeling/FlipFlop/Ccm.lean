import FlipFlop.Aead
/-!
# Ccm — authenticated encryption by counter mode and a chained tag

A block cipher of 128 bits, run forwards only, makes an `AeadInPlace`: the plaintext is added to a keystream of
encrypted counters, and the tag is the last block of a chain over the nonce, the lengths, the associated data and the
plaintext, added to one block more of the keystream.  Whatever the block cipher, decryption undoes encryption
(`aead_lawful`).
-/
namespace Ccm

open Aead (AeadInPlace)

abbrev Block := Vector UInt8 16

variable (E : Block → Block) {ns ts n : Nat}

/-! ## Bytes -/

/-- The first `n` of the bytes, with zeros behind them where they are fewer. -/
def fit (n : Nat) (bs : List UInt8) : Vector UInt8 n :=
  ⟨((bs ++ List.replicate n 0).take n).toArray, by simp⟩

/-- Bytes added to as many of the bytes of a stream. -/
def xorBytes (v : Vector UInt8 n) (stream : List UInt8) (h : n ≤ stream.length) : Vector UInt8 n :=
  ⟨(List.zipWith (· ^^^ ·) v.toList stream).toArray, by simp [h]⟩

/-- The stream added twice goes away. -/
theorem xorBytes_xorBytes (v : Vector UInt8 n) {stream : List UInt8} (h : n ≤ stream.length) :
    xorBytes (xorBytes v stream h) stream h = v := by
  rw [← Vector.toList_inj]
  apply List.ext_getElem
  · simp
  · intro i _ _
    simp [xorBytes]

/-- The `width` bytes of a number, the highest first. -/
def bigEndian : Nat → Nat → List UInt8
  | 0, _ => []
  | width + 1, m => bigEndian width (m / 256) ++ [UInt8.ofNat m]

/-! ## Counter mode -/

/-- What a length or a counter takes of a block, the nonce and the flags beside it. -/
def lengthSize (ns : Nat) : Nat := 15 - ns

def counterBlock (nonce : Vector UInt8 ns) (i : Nat) : Block :=
  fit 16 (UInt8.ofNat (lengthSize ns - 1) :: nonce.toList ++ bigEndian (lengthSize ns) i)

/-- The blocks in `n` bytes. -/
def blocks (n : Nat) : Nat := (n + 15) / 16

/-- Blocks enough for `n` bytes; the counter starts at one, the block at zero is the tag's. -/
def keystream (nonce : Vector UInt8 ns) (n : Nat) : List UInt8 :=
  (List.range (blocks n)).flatMap (fun i => (E (counterBlock nonce (i + 1))).toList)

theorem le_length_keystream (nonce : Vector UInt8 ns) (n : Nat) : n ≤ (keystream E nonce n).length := by
  have h : (keystream E nonce n).length = blocks n * 16 := by
    simp [keystream, List.length_flatMap]
  rw [h, blocks]
  omega

def counterMode (nonce : Vector UInt8 ns) (v : Vector UInt8 n) : Vector UInt8 n :=
  xorBytes v (keystream E nonce n) (le_length_keystream E nonce n)

theorem counterMode_counterMode (nonce : Vector UInt8 ns) (v : Vector UInt8 n) :
    counterMode E nonce (counterMode E nonce v) = v :=
  xorBytes_xorBytes v _

/-! ## The tag -/

/-- The chain goes on over the bytes, zeros after them up to a whole block. -/
def chain (x : Block) (bs : List UInt8) : Block :=
  (List.range (blocks bs.length)).foldl
    (fun x i => E (xorBytes x (fit 16 (bs.drop (16 * i))).toList (by simp))) x

/-- The associated data with their length in front, which takes two bytes, six or ten; none are not announced. -/
def associated (ad : List UInt8) : List UInt8 :=
  if ad = [] then []
  else if ad.length < 65280 then bigEndian 2 ad.length ++ ad
  else if ad.length < 2 ^ 32 then 255 :: 254 :: bigEndian 4 ad.length ++ ad
  else 255 :: 255 :: bigEndian 8 ad.length ++ ad

/-- What the chain starts with: flags that tell the three sizes, the nonce, and the length of the plaintext. -/
def firstBlock (ts : Nat) (nonce : Vector UInt8 ns) (ad : List UInt8) (n : Nat) : List UInt8 :=
  UInt8.ofNat ((if ad = [] then 0 else 64) + 8 * ((ts - 2) / 2) + (lengthSize ns - 1)) ::
    nonce.toList ++ bigEndian (lengthSize ns) n

def tag (ts : Nat) (nonce : Vector UInt8 ns) (ad : List UInt8) (v : Vector UInt8 n) : Vector UInt8 ts :=
  let x := chain E (Vector.replicate 16 0) (firstBlock ts nonce ad n)
  let x := chain E (chain E x (associated ad)) v.toList
  fit ts (xorBytes x (E (counterBlock nonce 0)).toList (by simp)).toList

/-! ## Both -/

def aead (ns ts : Nat) : AeadInPlace ns ts where
  encryptInPlaceDetached nonce ad _ plain := (counterMode E nonce plain, tag E ts nonce ad plain)
  decryptInPlaceDetached nonce ad _ sealed t :=
    let plain := counterMode E nonce sealed
    if tag E ts nonce ad plain = t then some plain else none

/-- **Decryption undoes encryption, whatever the block cipher.** -/
theorem aead_lawful (ns ts : Nat) : (aead E ns ts).toCipher.Lawful :=
  AeadInPlace.toCipher_lawful fun nonce ad n plain => by
    simp only [aead, counterMode_counterMode, if_true]

end Ccm
