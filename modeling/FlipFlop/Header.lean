import Mathlib
/-!
# Header — the four bytes in front of every datagram

`Header::to_packed` and `Header::parse` of `data/src/lib.rs`, mask by mask.  Both go through one 32-bit word; the
lemmas read the word as a sum of shifted fields (`toNat_pack`), so that the rest is arithmetic.
-/
namespace FlipFlop

/-- Indicates where data is sourced from i.e. its direction. -/
inductive DataSource
  | client
  | server
  deriving Repr, DecidableEq

structure Header where
  version : UInt8
  source : DataSource
  serverAddress : UInt8
  serverPort : UInt8
  frameCounter : UInt16
  deriving Repr, DecidableEq

/-- The header as it travels, most significant byte first. -/
abbrev Packed := UInt8 × UInt8 × UInt8 × UInt8

structure HeaderParseError where
  deriving Repr, DecidableEq

/-- The word `to_packed` builds before it cuts it into bytes. -/
def Header.word (h : Header) : UInt32 :=
  let source : UInt32 := if h.source = DataSource.server then 1 else 0
  (source <<< 2) ||| ((h.serverAddress.toUInt32 &&& 0xFF) <<< 3) ||| ((h.serverPort.toUInt32 &&& 0x07) <<< 11)
    ||| ((h.frameCounter.toUInt32 &&& 0xFFFF) <<< 16)

def cutWord (header : UInt32) : Packed :=
  (((header &&& 0xff000000) >>> 24).toUInt8,
   ((header &&& 0x00ff0000) >>> 16).toUInt8,
   ((header &&& 0x0000ff00) >>> 8).toUInt8,
   (header &&& 0x000000ff).toUInt8)

def Header.toPacked (h : Header) : Packed := cutWord h.word

/-- The word `parse` reads back out of the four bytes. -/
def joinWord (b : Packed) : UInt32 :=
  (b.1.toUInt32 <<< 24) ||| (b.2.1.toUInt32 <<< 16) ||| (b.2.2.1.toUInt32 <<< 8) ||| b.2.2.2.toUInt32

def Header.parse (b : Packed) : Except HeaderParseError Header :=
  let header := joinWord b
  let version := header &&& 0x02
  let source :=
    if (header >>> 2) &&& 0x01 = 0 then some DataSource.client
    else if (header >>> 2) &&& 0x01 = 1 then some DataSource.server
    else none
  let serverAddress := (header >>> 3) &&& 0xFF
  let serverPort := (header >>> 11) &&& 0x07
  let frameCounter := (header >>> 16) &&& 0xFFFF
  match decide (version = 0), source with
  | true, some source =>
    .ok { version := 0, source, serverAddress := serverAddress.toUInt8, serverPort := serverPort.toUInt8,
          frameCounter := frameCounter.toUInt16 }
  | _, _ => .error {}

/-! ## The words as numbers -/

theorem nat_and_mask (x k : Nat) : x &&& (2 ^ k - 1) = x % 2 ^ k := Nat.and_two_pow_sub_one_eq_mod x k

/-- A number below `2 ^ i`, or-ed with a multiple of `2 ^ i`, is added to it. -/
theorem nat_or_shift {i a : Nat} (b : Nat) (ha : a < 2 ^ i) : a ||| b * 2 ^ i = a + b * 2 ^ i := by
  rw [Nat.or_comm, Nat.mul_comm, ← Nat.two_pow_add_eq_or_of_lt ha]
  omega

theorem toNat_mask (w : UInt32) (m : UInt32) (k : Nat) (hm : m.toNat = 2 ^ k - 1) :
    (w &&& m).toNat = w.toNat % 2 ^ k := by
  rw [UInt32.toNat_and, hm, nat_and_mask]

theorem toNat_shr (w s : UInt32) (k : Nat) (hk : k < 32) (hs : s.toNat = k) : (w >>> s).toNat = w.toNat / 2 ^ k := by
  rw [UInt32.toNat_shiftRight, hs, Nat.mod_eq_of_lt hk, Nat.shiftRight_eq_div_pow]

theorem toNat_shl (w s : UInt32) (k : Nat) (hk : k < 32) (hs : s.toNat = k) (hw : w.toNat * 2 ^ k < 2 ^ 32) :
    (w <<< s).toNat = w.toNat * 2 ^ k := by
  rw [UInt32.toNat_shiftLeft, hs, Nat.mod_eq_of_lt hk, Nat.shiftLeft_eq, Nat.mod_eq_of_lt hw]

/-- The direction as the bit the word carries. -/
def DataSource.bit : DataSource → Nat
  | .client => 0
  | .server => 1

/-- **The word `to_packed` builds, as a sum**: the direction, the address, the port modulo eight and the counter. -/
theorem toNat_word (h : Header) : h.word.toNat =
    h.source.bit * 2 ^ 2 + h.serverAddress.toNat * 2 ^ 3 + h.serverPort.toNat % 8 * 2 ^ 11
      + h.frameCounter.toNat * 2 ^ 16 := by
  have ha := h.serverAddress.toNat_lt
  have hf := h.frameCounter.toNat_lt
  have hs1 : h.source.bit ≤ 1 := by cases h.source <;> decide
  have hs : ((if h.source = DataSource.server then 1 else 0 : UInt32) <<< 2).toNat = h.source.bit * 2 ^ 2 := by
    cases h.source <;> rfl
  have ha' : (h.serverAddress.toUInt32 &&& 0xFF).toNat = h.serverAddress.toNat := by
    rw [toNat_mask _ _ 8 rfl, UInt8.toNat_toUInt32]; omega
  have hp' : (h.serverPort.toUInt32 &&& 0x07).toNat = h.serverPort.toNat % 8 := by
    rw [toNat_mask _ _ 3 rfl, UInt8.toNat_toUInt32]; rfl
  have hf' : (h.frameCounter.toUInt32 &&& 0xFFFF).toNat = h.frameCounter.toNat := by
    rw [toNat_mask _ _ 16 rfl, UInt16.toNat_toUInt32]; omega
  simp only [Header.word, UInt32.toNat_or]
  rw [hs, toNat_shl _ 3 3 (by decide) rfl (by rw [ha']; omega), toNat_shl _ 11 11 (by decide) rfl (by rw [hp']; omega),
    toNat_shl _ 16 16 (by decide) rfl (by rw [hf']; omega), ha', hp', hf', nat_or_shift (i := 3) _ (by omega),
    nat_or_shift (i := 11) _ (by omega), nat_or_shift (i := 16) _ (by omega)]

theorem toNat_joinWord (b : Packed) : (joinWord b).toNat =
    b.2.2.2.toNat + b.2.2.1.toNat * 2 ^ 8 + b.2.1.toNat * 2 ^ 16 + b.1.toNat * 2 ^ 24 := by
  obtain ⟨b0, b1, b2, b3⟩ := b
  have h0 := b0.toNat_lt
  have h1 := b1.toNat_lt
  have h2 := b2.toNat_lt
  have h3 := b3.toNat_lt
  simp only [joinWord, UInt32.toNat_or]
  rw [toNat_shl _ 24 24 (by decide) rfl (by rw [UInt8.toNat_toUInt32]; omega),
    toNat_shl _ 16 16 (by decide) rfl (by rw [UInt8.toNat_toUInt32]; omega),
    toNat_shl _ 8 8 (by decide) rfl (by rw [UInt8.toNat_toUInt32]; omega)]
  simp only [UInt8.toNat_toUInt32]
  -- the bytes are or-ed in from the top; read the sum from the bottom
  rw [Nat.or_assoc, Nat.or_assoc, Nat.or_comm (b2.toNat * 2 ^ 8), nat_or_shift (i := 8) _ (by omega),
    Nat.or_comm (b1.toNat * 2 ^ 16), nat_or_shift (i := 16) _ (by omega), Nat.or_comm (b0.toNat * 2 ^ 24),
    nat_or_shift (i := 24) _ (by omega)]

theorem toNat_cut_byte (w m s : UInt32) (k : Nat) (hk : k < 32) (hs : s.toNat = k) (hm : m.toNat = 255 * 2 ^ k) :
    ((w &&& m) >>> s).toUInt8.toNat = w.toNat / 2 ^ k % 256 := by
  rw [UInt32.toNat_toUInt8, toNat_shr _ s k hk hs, UInt32.toNat_and, hm, ← Nat.shiftRight_eq_div_pow,
    Nat.shiftRight_and_distrib, Nat.shiftRight_eq_div_pow (255 * 2 ^ k), Nat.mul_div_cancel _ (Nat.two_pow_pos k),
    show 255 = 2 ^ 8 - 1 by rfl, nat_and_mask, Nat.shiftRight_eq_div_pow]
  omega

/-- **Cutting a word and joining it again is the identity**, on words and on bytes. -/
theorem joinWord_cutWord (w : UInt32) : joinWord (cutWord w) = w := by
  apply UInt32.toNat_inj.1
  have hw := w.toNat_lt
  rw [toNat_joinWord]
  simp only [cutWord]
  rw [toNat_cut_byte w 0xff000000 24 24 (by decide) rfl rfl, toNat_cut_byte w 0x00ff0000 16 16 (by decide) rfl rfl,
    toNat_cut_byte w 0x0000ff00 8 8 (by decide) rfl rfl, UInt32.toNat_toUInt8, toNat_mask w _ 8 rfl]
  omega

theorem joinWord_injective {b b' : Packed} (h : joinWord b = joinWord b') : b = b' := by
  have hn := congrArg UInt32.toNat h
  rw [toNat_joinWord, toNat_joinWord] at hn
  obtain ⟨b0, b1, b2, b3⟩ := b
  obtain ⟨c0, c1, c2, c3⟩ := b'
  have h0 := b0.toNat_lt
  have h1 := b1.toNat_lt
  have h2 := b2.toNat_lt
  have h3 := b3.toNat_lt
  have g0 := c0.toNat_lt
  have g1 := c1.toNat_lt
  have g2 := c2.toNat_lt
  have g3 := c3.toNat_lt
  simp only at hn
  have e0 : b0 = c0 := UInt8.toNat_inj.1 (by omega)
  have e1 : b1 = c1 := UInt8.toNat_inj.1 (by omega)
  have e2 : b2 = c2 := UInt8.toNat_inj.1 (by omega)
  have e3 : b3 = c3 := UInt8.toNat_inj.1 (by omega)
  rw [e0, e1, e2, e3]

theorem cutWord_joinWord (b : Packed) : cutWord (joinWord b) = b :=
  joinWord_injective (joinWord_cutWord _)

/-! ## What `parse` reads -/

/-- The fields a word carries. -/
def Header.ofWord (n : Nat) : Header where
  version := 0
  source := if n / 4 % 2 = 1 then .server else .client
  serverAddress := UInt8.ofNat (n / 8 % 256)
  serverPort := UInt8.ofNat (n / 2048 % 8)
  frameCounter := UInt16.ofNat (n / 65536 % 65536)

theorem toNat_field (w s m : UInt32) (k i : Nat) (hk : k < 32) (hs : s.toNat = k) (hm : m.toNat = 2 ^ i - 1) :
    ((w >>> s) &&& m).toNat = w.toNat / 2 ^ k % 2 ^ i := by
  rw [toNat_mask _ m i hm, toNat_shr w s k hk hs]

/-- Mask `0x02` looks at bit 1 alone. -/
theorem and_two_eq_zero_iff (w : UInt32) : w &&& 0x02 = 0 ↔ w.toNat / 2 % 2 = 0 := by
  rw [← UInt32.toNat_inj, UInt32.toNat_and]
  show w.toNat &&& 2 ^ 1 = 0 ↔ _
  rw [Nat.and_two_pow, Nat.testBit_eq_decide_div_mod_eq]
  have : w.toNat / 2 % 2 = 0 ∨ w.toNat / 2 % 2 = 1 := by omega
  rcases this with h | h <;> simp [h]

/-- **`parse` in one line**: it refuses a word with bit 1 set and reads the fields of every other. -/
theorem parse_eq (b : Packed) : Header.parse b =
    if (joinWord b).toNat / 2 % 2 = 0 then .ok (Header.ofWord (joinWord b).toNat) else .error {} := by
  unfold Header.parse
  generalize joinWord b = w
  have hsrc : ((w >>> 2) &&& 0x01).toNat = w.toNat / 4 % 2 := toNat_field w 2 1 2 1 (by decide) rfl rfl
  have haddr : ((w >>> 3) &&& 0xFF).toUInt8 = UInt8.ofNat (w.toNat / 8 % 256) := by
    apply UInt8.toNat_inj.1
    rw [UInt32.toNat_toUInt8, toNat_field w 3 0xFF 3 8 (by decide) rfl rfl, UInt8.toNat_ofNat']; rfl
  have hport : ((w >>> 11) &&& 0x07).toUInt8 = UInt8.ofNat (w.toNat / 2048 % 8) := by
    apply UInt8.toNat_inj.1
    rw [UInt32.toNat_toUInt8, toNat_field w 11 0x07 11 3 (by decide) rfl rfl, UInt8.toNat_ofNat']; rfl
  have hctr : ((w >>> 16) &&& 0xFFFF).toUInt16 = UInt16.ofNat (w.toNat / 65536 % 65536) := by
    apply UInt16.toNat_inj.1
    rw [UInt32.toNat_toUInt16, toNat_field w 16 0xFFFF 16 16 (by decide) rfl rfl, UInt16.toNat_ofNat']; rfl
  have hbit : w.toNat / 4 % 2 = 0 ∨ w.toNat / 4 % 2 = 1 := by omega
  have hsource : (if (w >>> 2) &&& 0x01 = 0 then some DataSource.client
      else if (w >>> 2) &&& 0x01 = 1 then some DataSource.server else none)
      = some (if w.toNat / 4 % 2 = 1 then DataSource.server else DataSource.client) := by
    rcases hbit with h | h
    · have hz : (w >>> 2) &&& 0x01 = 0 := UInt32.toNat_inj.1 (by rw [hsrc, h]; rfl)
      simp [hz, h]
    · have ho : (w >>> 2) &&& 0x01 = 1 := UInt32.toNat_inj.1 (by rw [hsrc, h]; rfl)
      simp [ho, h]
  simp only [hsource, haddr, hport, hctr, and_two_eq_zero_iff]
  by_cases hv : w.toNat / 2 % 2 = 0
  · simp [hv, Header.ofWord]
  · simp [hv]

/-- **`parse` after `to_packed`**: the header back, with its port modulo eight and the version it is written with. -/
theorem parse_toPacked (h : Header) :
    Header.parse h.toPacked = .ok { h with version := 0, serverPort := h.serverPort % 8 } := by
  rw [parse_eq, Header.toPacked, joinWord_cutWord, toNat_word]
  have ha := h.serverAddress.toNat_lt
  have hf := h.frameCounter.toNat_lt
  have hs : h.source.bit = 0 ∨ h.source.bit = 1 := by cases h.source <;> simp [DataSource.bit]
  rw [if_pos (by omega)]
  generalize hn : h.source.bit * 2 ^ 2 + h.serverAddress.toNat * 2 ^ 3 + h.serverPort.toNat % 8 * 2 ^ 11
    + h.frameCounter.toNat * 2 ^ 16 = n
  have e1 : n / 4 % 2 = h.source.bit := by omega
  have e2 : n / 8 % 256 = h.serverAddress.toNat := by omega
  have e3 : n / 2048 % 8 = h.serverPort.toNat % 8 := by omega
  have e4 : n / 65536 % 65536 = h.frameCounter.toNat := by omega
  have hport : UInt8.ofNat (h.serverPort.toNat % 8) = h.serverPort % 8 := by
    apply UInt8.toNat_inj.1
    rw [UInt8.toNat_ofNat', UInt8.toNat_mod]
    show h.serverPort.toNat % 8 % 2 ^ 8 = h.serverPort.toNat % 8
    omega
  simp only [Header.ofWord, e1, e2, e3, e4, UInt8.ofNat_toNat, UInt16.ofNat_toNat, hport]
  cases h.source <;> rfl

theorem port_mod_eq {port : UInt8} (hp : port ≤ 7) : port % 8 = port := by
  apply UInt8.toNat_inj.1
  have hle : port.toNat ≤ 7 := UInt8.le_iff_toNat_le.1 hp
  rw [UInt8.toNat_mod]
  show port.toNat % 8 = _
  omega

/-- A header of this version with a port the frame can carry survives the trip whole. -/
theorem parse_toPacked_self {h : Header} (hv : h.version = 0) (hp : h.serverPort ≤ 7) :
    Header.parse h.toPacked = .ok h := by
  rw [parse_toPacked, port_mod_eq hp]
  cases h; cases hv; rfl

/-! ## Which headers `parse` should accept, and which it does -/

/-- Bit `k` of the header word, as the data frame's documentation numbers them. -/
def Packed.bit (b : Packed) (k : Nat) : Bool := (joinWord b).toNat.testBit k

/-- The layout's demand: version bits 00..=01 and reserved bits 14..=15 are zero. -/
def Packed.WellFormed (b : Packed) : Prop :=
  b.bit 0 = false ∧ b.bit 1 = false ∧ b.bit 14 = false ∧ b.bit 15 = false

/-- `parse` accepts `b` exactly when the layout does, and what it reads packs to `b` again. -/
def Packed.ParsedExactly (b : Packed) : Prop :=
  ((∃ h, Header.parse b = .ok h) ↔ b.WellFormed) ∧ ∀ h, Header.parse b = .ok h → h.toPacked = b

theorem Packed.bit_eq_false_iff (b : Packed) (k : Nat) : b.bit k = false ↔ (joinWord b).toNat / 2 ^ k % 2 = 0 := by
  unfold Packed.bit
  rw [Nat.testBit_eq_decide_div_mod_eq, decide_eq_false_iff_not]
  omega

theorem parse_ok_iff (b : Packed) : (∃ h, Header.parse b = .ok h) ↔ b.bit 1 = false := by
  rw [parse_eq, Packed.bit_eq_false_iff]
  by_cases hv : (joinWord b).toNat / 2 % 2 = 0
  · simp [hv]
  · simp [hv]

/-- What `parse` reads packs to the same word with bits 0, 1, 14 and 15 cleared. -/
theorem toNat_word_ofWord (n : Nat) (hn : n < 2 ^ 32) :
    (Header.ofWord n).word.toNat = n - n % 4 - n / 16384 % 4 * 16384 := by
  rw [toNat_word]
  have hsrc : (Header.ofWord n).source.bit = n / 4 % 2 := by
    have : n / 4 % 2 = 0 ∨ n / 4 % 2 = 1 := by omega
    rcases this with h | h <;> simp [Header.ofWord, h, DataSource.bit]
  have haddr : (Header.ofWord n).serverAddress.toNat = n / 8 % 256 := by
    simp only [Header.ofWord, UInt8.toNat_ofNat']; omega
  have hport : (Header.ofWord n).serverPort.toNat = n / 2048 % 8 := by
    simp only [Header.ofWord, UInt8.toNat_ofNat']; omega
  have hctr : (Header.ofWord n).frameCounter.toNat = n / 65536 := by
    simp only [Header.ofWord, UInt16.toNat_ofNat']; omega
  rw [hsrc, haddr, hport, hctr]
  omega

theorem toPacked_of_parse {b : Packed} {h : Header} (hb : b.bit 0 = false ∧ b.bit 14 = false ∧ b.bit 15 = false)
    (hp : Header.parse b = .ok h) : h.toPacked = b := by
  obtain ⟨h0, h14, h15⟩ := hb
  have h1 := (parse_ok_iff b).1 ⟨h, hp⟩
  rw [Packed.bit_eq_false_iff] at h0 h1 h14 h15
  have hw := (joinWord b).toNat_lt
  rw [parse_eq, if_pos (by simpa using h1)] at hp
  obtain rfl : Header.ofWord (joinWord b).toNat = h := by simpa using hp
  have : (Header.ofWord (joinWord b).toNat).word = joinWord b := by
    apply UInt32.toNat_inj.1
    rw [toNat_word_ofWord _ hw]
    omega
  rw [Header.toPacked, this, cutWord_joinWord]

/-- The headers mask `0x02` decides rightly: bit 1 is set, or none of the bits it does not look at is. -/
def Packed.MaskSuffices (b : Packed) : Prop :=
  b.bit 1 = true ∨ (b.bit 0 = false ∧ b.bit 14 = false ∧ b.bit 15 = false)

theorem parsedExactly_of_maskSuffices {b : Packed} (hb : b.MaskSuffices) : b.ParsedExactly := by
  unfold Packed.ParsedExactly
  rw [parse_ok_iff]
  rcases hb with h1 | hclear
  · have hrefused : ¬ ∃ h, Header.parse b = .ok h := by rw [parse_ok_iff]; simp [h1]
    refine ⟨by simp [Packed.WellFormed, h1], fun h hp => absurd ⟨h, hp⟩ hrefused⟩
  · exact ⟨by simp [Packed.WellFormed, hclear], fun h hp => toPacked_of_parse hclear hp⟩

theorem maskSuffices_of_parsedExactly {b : Packed} (hb : b.ParsedExactly) : b.MaskSuffices := by
  have haccept := hb.1
  rw [parse_ok_iff] at haccept
  cases h1 : b.bit 1 with
  | true => exact .inl h1
  | false =>
    obtain ⟨h0, -, h14, h15⟩ := haccept.1 h1
    exact .inr ⟨h0, h14, h15⟩

/-- **When `parse` accepts exactly the image of `to_packed`**: on the headers the mask decides rightly and on no
other; among those, no two parse to one header. -/
theorem parsedExactly_iff (b : Packed) :
    (b.ParsedExactly ↔ b.MaskSuffices) ∧
    ∀ (b' : Packed) (h : Header), b.MaskSuffices → b'.MaskSuffices →
      Header.parse b = .ok h → Header.parse b' = .ok h → b = b' := by
  refine ⟨⟨maskSuffices_of_parsedExactly, parsedExactly_of_maskSuffices⟩, ?_⟩
  intro b' h hb hb' hp hp'
  have e := (parsedExactly_of_maskSuffices hb).2 h hp
  have e' := (parsedExactly_of_maskSuffices hb').2 h hp'
  exact e.symm.trans e'

theorem parsedExactly_iff_test_vector :
    Packed.MaskSuffices (0, 1, 63, 252) ∧
    Header.parse (0, 1, 63, 252) = .ok ⟨0, .server, 255, 7, 1⟩ ∧
    ∀ b', b'.MaskSuffices → Header.parse b' = .ok ⟨0, .server, 255, 7, 1⟩ → (0, 1, 63, 252) = b' :=
  have hm : Packed.MaskSuffices (0, 1, 63, 252) := .inr ⟨by decide, by decide, by decide⟩
  have hp : Header.parse (0, 1, 63, 252) = .ok ⟨0, .server, 255, 7, 1⟩ := by decide
  ⟨hm, hp, fun b' hb' hp' => (parsedExactly_iff (0, 1, 63, 252)).2 b' _ hm hb' hp hp'⟩

/-- Version bits 01 are accepted as version 0, and so is a set reserved bit; each then collides with the header
of zeros. -/
theorem parse_accepts_version_one :
    ¬ Packed.ParsedExactly (0, 0, 0, 1) ∧ ¬ Packed.ParsedExactly (0, 0, 0x40, 0) ∧
    Header.parse (0, 0, 0, 1) = .ok ⟨0, .client, 0, 0, 0⟩ ∧
    Header.parse (0, 0, 0x40, 0) = .ok ⟨0, .client, 0, 0, 0⟩ ∧
    Header.parse (0, 0, 0, 0) = .ok ⟨0, .client, 0, 0, 0⟩ := by
  have h1 : Header.parse (0, 0, 0, 1) = .ok ⟨0, .client, 0, 0, 0⟩ := by decide
  have h2 : Header.parse (0, 0, 0x40, 0) = .ok ⟨0, .client, 0, 0, 0⟩ := by decide
  refine ⟨fun h => ?_, fun h => ?_, h1, h2, by decide⟩
  · exact absurd (h.2 _ h1) (by decide)
  · exact absurd (h.2 _ h2) (by decide)

end FlipFlop
