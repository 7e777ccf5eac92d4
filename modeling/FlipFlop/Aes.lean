import Mathlib
/-!
# Aes — the block cipher AES with a key of 128 bits

The state is four columns of four bytes, and so is a round's key.  Ten rounds, each with the key after the one before,
take a block to its ciphertext.  There is no inverse: the modes of operation that run the cipher forwards only need none.
-/
namespace Aes

/-- A column of the state, a word of the key. -/
structure Column where
  b0 : UInt8
  b1 : UInt8
  b2 : UInt8
  b3 : UInt8

structure State where
  c0 : Column
  c1 : Column
  c2 : Column
  c3 : Column

def Column.map (f : UInt8 → UInt8) (c : Column) : Column := ⟨f c.b0, f c.b1, f c.b2, f c.b3⟩

def Column.xor (c d : Column) : Column := ⟨c.b0 ^^^ d.b0, c.b1 ^^^ d.b1, c.b2 ^^^ d.b2, c.b3 ^^^ d.b3⟩

def State.ofBytes (v : Vector UInt8 16) : State :=
  ⟨⟨v[0], v[1], v[2], v[3]⟩, ⟨v[4], v[5], v[6], v[7]⟩, ⟨v[8], v[9], v[10], v[11]⟩, ⟨v[12], v[13], v[14], v[15]⟩⟩

def State.toBytes (s : State) : Vector UInt8 16 :=
  #v[s.c0.b0, s.c0.b1, s.c0.b2, s.c0.b3, s.c1.b0, s.c1.b1, s.c1.b2, s.c1.b3,
    s.c2.b0, s.c2.b1, s.c2.b2, s.c2.b3, s.c3.b0, s.c3.b1, s.c3.b2, s.c3.b3]

/-- The S-box, a row for each high half of a byte. -/
def sBoxRows : List (List UInt8) :=
  [[99, 124, 119, 123, 242, 107, 111, 197, 48, 1, 103, 43, 254, 215, 171, 118],
    [202, 130, 201, 125, 250, 89, 71, 240, 173, 212, 162, 175, 156, 164, 114, 192],
    [183, 253, 147, 38, 54, 63, 247, 204, 52, 165, 229, 241, 113, 216, 49, 21],
    [4, 199, 35, 195, 24, 150, 5, 154, 7, 18, 128, 226, 235, 39, 178, 117],
    [9, 131, 44, 26, 27, 110, 90, 160, 82, 59, 214, 179, 41, 227, 47, 132],
    [83, 209, 0, 237, 32, 252, 177, 91, 106, 203, 190, 57, 74, 76, 88, 207],
    [208, 239, 170, 251, 67, 77, 51, 133, 69, 249, 2, 127, 80, 60, 159, 168],
    [81, 163, 64, 143, 146, 157, 56, 245, 188, 182, 218, 33, 16, 255, 243, 210],
    [205, 12, 19, 236, 95, 151, 68, 23, 196, 167, 126, 61, 100, 93, 25, 115],
    [96, 129, 79, 220, 34, 42, 144, 136, 70, 238, 184, 20, 222, 94, 11, 219],
    [224, 50, 58, 10, 73, 6, 36, 92, 194, 211, 172, 98, 145, 149, 228, 121],
    [231, 200, 55, 109, 141, 213, 78, 169, 108, 86, 244, 234, 101, 122, 174, 8],
    [186, 120, 37, 46, 28, 166, 180, 198, 232, 221, 116, 31, 75, 189, 139, 138],
    [112, 62, 181, 102, 72, 3, 246, 14, 97, 53, 87, 185, 134, 193, 29, 158],
    [225, 248, 152, 17, 105, 217, 142, 148, 155, 30, 135, 233, 206, 85, 40, 223],
    [140, 161, 137, 13, 191, 230, 66, 104, 65, 153, 45, 15, 176, 84, 187, 22]]

def sBox (b : UInt8) : UInt8 := (sBoxRows.getD (b.toNat / 16) []).getD (b.toNat % 16) 0

/-- Twice a byte, as a polynomial modulo `x ^ 8 + x ^ 4 + x ^ 3 + x + 1`. -/
def xtime (b : UInt8) : UInt8 := if b < 128 then b <<< 1 else (b <<< 1) ^^^ 27

def subBytes (s : State) : State := ⟨s.c0.map sBox, s.c1.map sBox, s.c2.map sBox, s.c3.map sBox⟩

def shiftRows (s : State) : State :=
  ⟨⟨s.c0.b0, s.c1.b1, s.c2.b2, s.c3.b3⟩, ⟨s.c1.b0, s.c2.b1, s.c3.b2, s.c0.b3⟩,
    ⟨s.c2.b0, s.c3.b1, s.c0.b2, s.c1.b3⟩, ⟨s.c3.b0, s.c0.b1, s.c1.b2, s.c2.b3⟩⟩

-- each byte is twice itself, three times the next, and the other two
def mixColumn (c : Column) : Column :=
  ⟨xtime (c.b0 ^^^ c.b1) ^^^ c.b1 ^^^ c.b2 ^^^ c.b3, xtime (c.b1 ^^^ c.b2) ^^^ c.b2 ^^^ c.b3 ^^^ c.b0,
    xtime (c.b2 ^^^ c.b3) ^^^ c.b3 ^^^ c.b0 ^^^ c.b1, xtime (c.b3 ^^^ c.b0) ^^^ c.b0 ^^^ c.b1 ^^^ c.b2⟩

def mixColumns (s : State) : State := ⟨mixColumn s.c0, mixColumn s.c1, mixColumn s.c2, mixColumn s.c3⟩

def addRoundKey (s k : State) : State := ⟨s.c0.xor k.c0, s.c1.xor k.c1, s.c2.xor k.c2, s.c3.xor k.c3⟩

/-- The last word of a round's key turned by a byte and substituted, the round's constant on its first byte. -/
def keyCore (rcon : UInt8) (c : Column) : Column := ⟨sBox c.b1 ^^^ rcon, sBox c.b2, sBox c.b3, sBox c.b0⟩

/-- The key of the round after the one whose key is `k`. -/
def nextKey (rcon : UInt8) (k : State) : State :=
  let c0 := k.c0.xor (keyCore rcon k.c3)
  let c1 := k.c1.xor c0
  let c2 := k.c2.xor c1
  ⟨c0, c1, c2, k.c3.xor c2⟩

/-- The rounds, by their constants; the last, whose constant is 54, mixes no columns. -/
def rounds : List UInt8 → State → State → State
  | [], s, k => addRoundKey (shiftRows (subBytes s)) (nextKey 54 k)
  | rcon :: rcons, s, k =>
    rounds rcons (addRoundKey (mixColumns (shiftRows (subBytes s))) (nextKey rcon k)) (nextKey rcon k)

def encryptBlock (key block : Vector UInt8 16) : Vector UInt8 16 :=
  let k := State.ofBytes key
  (rounds [1, 2, 4, 8, 16, 32, 64, 128, 27] (addRoundKey (State.ofBytes block) k) k).toBytes

example : encryptBlock #v[0, 1, 2, 3, 4, 5, 6, 7, 8, 9, 10, 11, 12, 13, 14, 15]
    #v[0, 17, 34, 51, 68, 85, 102, 119, 136, 153, 170, 187, 204, 221, 238, 255]
    = #v[105, 196, 224, 216, 106, 123, 4, 48, 216, 205, 183, 128, 112, 180, 197, 90] := by decide +kernel

end Aes
