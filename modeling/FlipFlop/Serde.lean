import FlipFlop.Varint
import FlipFlop.Heapless
/-!
# Serde — postcard's encoding, type by type

`Serde α` is the pair of a type's serialiser and deserialiser; the deserialiser hands back the bytes it did not read.
`LawfulSerde α` says that the encoding is self-delimiting: read back in front of anything, it gives the value and that
anything.  A struct is its fields in order (`Serde.via`), an enum its variant's index as a varint and the variant's
fields, `u8` and `[u8; n]` are raw, the wider integers are varints, a slice is its length as a varint and its bytes.
-/
namespace Postcard

open Rust (HVec Panic)

class Serde (α : Type) where
  ser : α → List UInt8
  de : List UInt8 → Except Error (α × List UInt8)

export Serde (ser de)

class LawfulSerde (α : Type) [Serde α] : Prop where
  de_ser : ∀ (x : α) (rest : List UInt8), de (ser x ++ rest) = .ok (x, rest)

export LawfulSerde (de_ser)

theorem de_ser_nil {α : Type} [Serde α] [LawfulSerde α] (x : α) : de (ser x) = .ok (x, []) := by
  have := de_ser x []
  rwa [List.append_nil] at this

/-- `postcard::from_bytes`: bytes after the value are not looked at. -/
def fromBytes {α : Type} [Serde α] (bs : List UInt8) : Except Error α :=
  match de bs with
  | .error e => .error e
  | .ok (x, _) => .ok x

/-- `postcard::to_slice(..)` into a buffer of `N` bytes. -/
def toSlice {N : Nat} (bs : List UInt8) (buf : Vector UInt8 N) : Option (Vector UInt8 N) := Rust.writeFront bs buf

/-- `postcard::to_vec::<_, N>(..)`. -/
def toVec {α : Type} [Serde α] (N : Nat) (x : α) : Option (HVec UInt8 N) := HVec.fromSlice (ser x)

theorem fromBytes_of_de {α : Type} [Serde α] {x : α} (h : de (ser x ++ []) = .ok (x, [])) :
    fromBytes (ser x) = .ok x := by
  unfold fromBytes
  rw [List.append_nil] at h
  rw [h]

theorem fromBytes_ser {α : Type} [Serde α] [LawfulSerde α] (x : α) : fromBytes (ser x) = .ok x :=
  fromBytes_of_de (de_ser x [])

theorem toVec_of_le {α : Type} [Serde α] {N : Nat} {x : α} (h : (ser x).length ≤ N) :
    toVec N x = some ⟨ser x, h⟩ := HVec.fromSlice_of_le h

/-! ## Scalars -/

instance : Serde Unit where
  ser _ := []
  de bs := .ok ((), bs)

instance : LawfulSerde Unit := ⟨fun _ _ => rfl⟩

instance : Serde UInt8 where
  ser b := [b]
  de
    | [] => .error .unexpectedEnd
    | b :: bs => .ok (b, bs)

instance : LawfulSerde UInt8 := ⟨fun _ _ => rfl⟩

instance : Serde Bool where
  ser b := [if b then 1 else 0]
  de
    | [] => .error .unexpectedEnd
    | b :: bs => if b = 0 then .ok (false, bs) else if b = 1 then .ok (true, bs) else .error .badBool

instance : LawfulSerde Bool := ⟨fun b _ => by cases b <;> rfl⟩

/-- A varint of `bits` bits, read as the integer type `ofNat` makes. -/
def deVarint {α : Type} (bits : Nat) (ofNat : Nat → α) (bs : List UInt8) : Except Error (α × List UInt8) :=
  match takeVarint bits bs with
  | .error e => .error e
  | .ok (v, rest) => .ok (ofNat v, rest)

theorem deVarint_varint {α : Type} {bits : Nat} (hb : bits % 7 ≠ 0) (ofNat : Nat → α) {v : Nat} (hv : v < 2 ^ bits)
    (rest : List UInt8) : deVarint bits ofNat (varint bits v ++ rest) = .ok (ofNat v, rest) := by
  unfold deVarint
  rw [takeVarint_varint hb hv]

instance : Serde UInt32 where
  ser n := varint 32 n.toNat
  de := deVarint 32 UInt32.ofNat

theorem ser_uint32 (n : UInt32) : ser n = varint 32 n.toNat := rfl

theorem de_uint32 (bs : List UInt8) : de bs = deVarint 32 UInt32.ofNat bs := rfl

instance : LawfulSerde UInt32 := ⟨fun n rest => by
  rw [ser_uint32, de_uint32, deVarint_varint (by decide) _ n.toNat_lt, UInt32.ofNat_toNat]⟩

instance : Serde UInt64 where
  ser n := varint 64 n.toNat
  de := deVarint 64 UInt64.ofNat

theorem ser_uint64 (n : UInt64) : ser n = varint 64 n.toNat := rfl

theorem de_uint64 (bs : List UInt8) : de bs = deVarint 64 UInt64.ofNat bs := rfl

instance : LawfulSerde UInt64 := ⟨fun n rest => by
  rw [ser_uint64, de_uint64, deVarint_varint (by decide) _ n.toNat_lt, UInt64.ofNat_toNat]⟩

theorem length_ser_uint32 (n : UInt32) : (ser n).length = varintLen n.toNat := length_varint (by decide) n.toNat_lt

theorem length_ser_uint32_le (n : UInt32) : (ser n).length ≤ 5 := by
  have hlt := n.toNat_lt
  rw [length_ser_uint32]
  exact varintLen_le (by decide) (by omega)

theorem length_ser_uint64_le (n : UInt64) : (ser n).length ≤ 10 := by
  have hlt := n.toNat_lt
  rw [ser_uint64, length_varint (by decide) hlt]
  exact varintLen_le (by decide) (by omega)

theorem local_deVarint {α : Type} (bits : Nat) (ofNat : Nat → α) : Local (deVarint bits ofNat) := by
  have hseq : deVarint bits ofNat = fun bs => (takeVarint bits bs).bind (fun p => .ok (ofNat p.1, p.2)) := by
    funext bs
    unfold deVarint
    cases takeVarint bits bs <;> rfl
  rw [hseq]
  exact (local_takeVarint bits).bind (fun v => Local.pure (ofNat v))

theorem local_uint32 : Local (de (α := UInt32)) := local_deVarint 32 UInt32.ofNat

theorem local_uint64 : Local (de (α := UInt64)) := local_deVarint 64 UInt64.ofNat

/-! ## Structs, options, arrays -/

/-- The second field, read from where the first one ended. -/
instance {α β : Type} [Serde α] [Serde β] : Serde (α × β) where
  ser p := ser p.1 ++ ser p.2
  de bs :=
    match de (α := α) bs with
    | .error e => .error e
    | .ok (a, rest) =>
      match de (α := β) rest with
      | .error e => .error e
      | .ok (b, rest) => .ok ((a, b), rest)

theorem de_ser_prod {α β : Type} [Serde α] [Serde β] [LawfulSerde α] {a : α} {b : β} {rest : List UInt8}
    (hb : de (ser b ++ rest) = .ok (b, rest)) : de (ser (a, b) ++ rest) = .ok ((a, b), rest) := by
  simp only [Serde.de, Serde.ser, List.append_assoc] at hb ⊢
  rw [de_ser]
  simp only [hb]

theorem length_ser_prod {α β : Type} [Serde α] [Serde β] (a : α) (b : β) :
    (ser (a, b)).length = (ser a).length + (ser b).length := List.length_append

instance {α β : Type} [Serde α] [Serde β] [LawfulSerde α] [LawfulSerde β] : LawfulSerde (α × β) :=
  ⟨fun p rest => de_ser_prod (de_ser p.2 rest)⟩

/-- A type serialised as another one: a struct as the tuple of its fields. -/
@[reducible] def Serde.via {α β : Type} [Serde β] (f : α → β) (g : β → α) : Serde α where
  ser a := ser (f a)
  de bs :=
    match de (α := β) bs with
    | .error e => .error e
    | .ok (b, rest) => .ok (g b, rest)

theorem Serde.via_de_ser {α β : Type} [Serde β] {f : α → β} {g : β → α} (h : ∀ a, g (f a) = a) {a : α}
    {rest : List UInt8} (hf : de (ser (f a) ++ rest) = .ok (f a, rest)) :
    (Serde.via f g).de ((Serde.via f g).ser a ++ rest) = .ok (a, rest) := by
  show (match de (α := β) (ser (f a) ++ rest) with
    | .error e => .error e
    | .ok (b, rest) => .ok (g b, rest)) = Except.ok (a, rest)
  rw [hf]
  simp only [h]

theorem LawfulSerde.via {α β : Type} [Serde β] [LawfulSerde β] (f : α → β) (g : β → α) (h : ∀ a, g (f a) = a) :
    @LawfulSerde α (Serde.via f g) :=
  let _ : Serde α := Serde.via f g
  ⟨fun a rest => Serde.via_de_ser h (de_ser (f a) rest)⟩

/-- An enum of the one variant `x` without fields: its index. -/
@[reducible] def Serde.unitVariant {α : Type} (x : α) : Serde α where
  ser _ := varint 32 0
  de bs :=
    match takeVarint 32 bs with
    | .error e => .error e
    | .ok (0, rest) => .ok (x, rest)
    | .ok (_, _) => .error .custom

theorem LawfulSerde.unitVariant {α : Type} (x : α) (h : ∀ y, y = x) : @LawfulSerde α (Serde.unitVariant x) :=
  let _ : Serde α := Serde.unitVariant x
  ⟨fun y rest => by rw [h y]; rfl⟩

instance {α : Type} [Serde α] : Serde (Option α) where
  ser
    | none => [0]
    | some a => 1 :: ser a
  de
    | [] => .error .unexpectedEnd
    | b :: bs =>
      if b = 0 then .ok (none, bs)
      else if b = 1 then
        match de (α := α) bs with
        | .error e => .error e
        | .ok (a, rest) => .ok (some a, rest)
      else .error .badOption

instance {α : Type} [Serde α] [LawfulSerde α] : LawfulSerde (Option α) := ⟨fun o rest => by
  cases o with
  | none => rfl
  | some a =>
    show (match de (α := α) (ser a ++ rest) with
      | .error e => .error e
      | .ok (a, rest) => .ok (some a, rest)) = Except.ok (some a, rest)
    rw [de_ser]⟩

theorem local_option {α : Type} [Serde α] (hα : Local (de (α := α))) : Local (de (α := Option α)) := by
  intro bs x rest h
  cases bs with
  | nil => cases h
  | cons b bs =>
    simp only [Serde.de] at h
    by_cases h0 : b = 0
    · rw [if_pos h0] at h
      cases h
      exact ⟨[b], rfl, fun rest' => if_pos h0⟩
    · rw [if_neg h0] at h
      by_cases h1 : b = 1
      · rw [if_pos h1] at h
        cases hsome : de (α := α) bs with
        | error e =>
          simp only [hsome] at h
          cases h
        | ok read =>
          simp only [hsome] at h
          cases h
          obtain ⟨front, rfl, hfront⟩ := hα hsome
          refine ⟨b :: front, rfl, fun rest' => ?_⟩
          simp only [List.cons_append, Serde.de, if_neg h0, if_pos h1, hfront]
      · rw [if_neg h1] at h
        cases h

/-- `n` bytes off the front. -/
def takeN (n : Nat) (bs : List UInt8) : Except Error (List UInt8 × List UInt8) :=
  if bs.length < n then .error .unexpectedEnd else .ok (bs.take n, bs.drop n)

theorem takeN_append (xs rest : List UInt8) : takeN xs.length (xs ++ rest) = .ok (xs, rest) := by
  unfold takeN
  rw [if_neg (by simp)]
  simp

/-- `[u8; n]`: a tuple of bytes, without a length. -/
instance {n : Nat} : Serde (Vector UInt8 n) where
  ser v := v.toList
  de bs :=
    if h : bs.length < n then .error .unexpectedEnd
    else .ok (⟨(bs.take n).toArray, by simp; omega⟩, bs.drop n)

instance {n : Nat} : LawfulSerde (Vector UInt8 n) := ⟨fun v rest => by
  have hlen : v.toList.length = n := Vector.length_toList
  have hdrop : (v.toList ++ rest).drop n = rest := by simp [hlen]
  have htake : (v.toList ++ rest).take n = v.toList := by simp [hlen]
  simp only [Serde.de, Serde.ser]
  rw [dif_neg (by simp)]
  simp only [Except.ok.injEq, Prod.mk.injEq]
  refine ⟨Vector.toList_inj.1 ?_, hdrop⟩
  simp [htake]⟩

/-! ## Slices -/

/-- The width of `usize`. -/
def usizeBits : Nat := 64

/-- A byte slice: its length, then its bytes. -/
def serSlice (xs : List UInt8) : List UInt8 := varint usizeBits xs.length ++ xs

/-- A byte slice borrowed from the input: the length is checked against what is left. -/
def deSlice (bs : List UInt8) : Except Error (List UInt8 × List UInt8) :=
  match takeVarint usizeBits bs with
  | .error e => .error e
  | .ok (n, rest) => takeN n rest

theorem deSlice_serSlice {xs : List UInt8} (h : xs.length < 2 ^ usizeBits) (rest : List UInt8) :
    deSlice (serSlice xs ++ rest) = .ok (xs, rest) := by
  unfold deSlice serSlice
  rw [List.append_assoc, takeVarint_varint (by decide) h]
  exact takeN_append xs rest

/-- A slice is never longer than what was left behind its length. -/
theorem deSlice_length {bs xs rest : List UInt8} (h : deSlice bs = .ok (xs, rest)) : xs.length < bs.length := by
  unfold deSlice at h
  split at h
  · cases h
  · rename_i n left hn
    have hleft := takeVarint_length hn
    unfold takeN at h
    split at h
    · cases h
    · cases h
      rw [List.length_take]
      omega

theorem length_serSlice {xs : List UInt8} (h : xs.length < 2 ^ usizeBits) :
    (serSlice xs).length = varintLen xs.length + xs.length := by
  unfold serSlice
  rw [List.length_append, length_varint (by decide) h]

/-- `heapless::Vec<u8, N>`: read element by element, so that a length over the capacity is refused at the element
after the last that fits. -/
instance {N : Nat} : Serde (HVec UInt8 N) where
  ser v := serSlice v.toList
  de bs :=
    match takeVarint usizeBits bs with
    | .error e => .error e
    | .ok (n, rest) =>
      if rest.length < min n (N + 1) then .error .unexpectedEnd
      else if h : N < n then .error .custom
      else .ok (⟨rest.take n, by simp; omega⟩, rest.drop n)

theorem de_ser_hvec {N : Nat} (v : HVec UInt8 N) (hv : v.toList.length < 2 ^ usizeBits) (rest : List UInt8) :
    de (ser v ++ rest) = .ok (v, rest) := by
  have hle := v.length_le
  simp only [Serde.de, Serde.ser, serSlice, List.append_assoc]
  rw [takeVarint_varint (by decide) hv]
  simp only
  rw [if_neg (by rw [List.length_append]; omega), dif_neg (by omega)]
  simp

end Postcard
