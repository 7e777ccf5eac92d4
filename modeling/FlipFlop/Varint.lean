import Mathlib
/-!
# Varint — postcard's variable-width integers

An unsigned integer of `bits` bits goes on the wire seven bits a byte, least significant group first, every byte but
the last with its top bit set.  The writer is `putVarint`, bounded by the `varintMax bits` bytes the type may take;
the reader `takeVarint` refuses a varint of more bytes, one cut short, and a last byte that would not fit the type.

`takeVarint_varint` is the round trip, `length_varint` the exact width, and `Local` says of a reader that the bytes behind
what it takes make no difference.  Nothing here is about one program.
-/
namespace Postcard

/-- What postcard's deserialiser may answer in place of a value. -/
inductive Error
  | unexpectedEnd
  | badVarint
  | badBool
  | badOption
  | custom
  deriving Repr, DecidableEq

/-- How many bytes a varint of `bits` data bits may take. -/
def varintMax (bits : Nat) : Nat := (bits + 6) / 7

/-- The largest byte that may stand last in a varint of full width. -/
def maxOfLastByte (bits : Nat) : Nat := 2 ^ (bits % 7) - 1

def putVarint : Nat → Nat → List UInt8
  | 0, _ => []
  | k + 1, v => if v < 128 then [UInt8.ofNat v] else UInt8.ofNat (v % 128 + 128) :: putVarint k (v / 128)

def varint (bits v : Nat) : List UInt8 := putVarint (varintMax bits) v

/-- Up to `k` more groups: the value they carry and what follows them. -/
def takeGroups (bits : Nat) : Nat → List UInt8 → Except Error (Nat × List UInt8)
  | 0, _ => .error .badVarint
  | _ + 1, [] => .error .unexpectedEnd
  | k + 1, b :: bs =>
    if b.toNat < 128 then
      if k = 0 ∧ maxOfLastByte bits < b.toNat then .error .badVarint else .ok (b.toNat, bs)
    else
      match takeGroups bits k bs with
      | .error e => .error e
      | .ok (v, rest) => .ok (b.toNat - 128 + 128 * v, rest)

def takeVarint (bits : Nat) (bs : List UInt8) : Except Error (Nat × List UInt8) :=
  takeGroups bits (varintMax bits) bs

/-! ## Reader after writer -/

theorem toNat_ofNat_of_lt {n : Nat} (h : n < 256) : (UInt8.ofNat n).toNat = n := by
  rw [UInt8.toNat_ofNat']; omega

theorem two_pow_seven_mul_succ (k c : Nat) : 2 ^ (7 * (k + 1) + c) = 128 * 2 ^ (7 * k + c) := by
  rw [show 7 * (k + 1) + c = 7 + (7 * k + c) by omega, Nat.pow_add]

/-- A value that fits `k` full groups and a last one of `bits % 7` bits is read back from its `k + 1` groups. -/
theorem takeGroups_putVarint (bits : Nat) (rest : List UInt8) : ∀ (k v : Nat), v < 2 ^ (7 * k + bits % 7) →
    takeGroups bits (k + 1) (putVarint (k + 1) v ++ rest) = .ok (v, rest)
  | 0, v, hv => by
    have h6 : 2 ^ (bits % 7) ≤ 2 ^ 6 := Nat.pow_le_pow_right (by decide) (by omega)
    rw [Nat.mul_zero, Nat.zero_add] at hv
    have h128 : v < 128 := by omega
    have hlast : ¬ maxOfLastByte bits < v := by unfold maxOfLastByte; omega
    simp [putVarint, takeGroups, h128, toNat_ofNat_of_lt (show v < 256 by omega), hlast]
  | k + 1, v, hv => by
    by_cases h128 : v < 128
    · simp [putVarint, takeGroups, h128, toNat_ofNat_of_lt (show v < 256 by omega)]
    · have hb : (UInt8.ofNat (v % 128 + 128)).toNat = v % 128 + 128 := toNat_ofNat_of_lt (by omega)
      have hdiv : v / 128 < 2 ^ (7 * k + bits % 7) := by
        rw [two_pow_seven_mul_succ] at hv
        exact Nat.div_lt_of_lt_mul hv
      rw [putVarint, if_neg h128, List.cons_append, takeGroups, hb, if_neg (by omega),
        takeGroups_putVarint bits rest k (v / 128) hdiv]
      simp only [Except.ok.injEq, Prod.mk.injEq, and_true]
      omega

/-- A width whose last group is a proper one: every width but the multiples of seven. -/
theorem varintMax_eq {bits : Nat} (hb : bits % 7 ≠ 0) : varintMax bits = bits / 7 + 1 := by
  unfold varintMax; omega

/-- **The reader undoes the writer**, whatever follows. -/
theorem takeVarint_varint {bits : Nat} (hb : bits % 7 ≠ 0) {v : Nat} (hv : v < 2 ^ bits) (rest : List UInt8) :
    takeVarint bits (varint bits v ++ rest) = .ok (v, rest) := by
  unfold takeVarint varint
  rw [varintMax_eq hb]
  exact takeGroups_putVarint bits rest (bits / 7) v (by rwa [Nat.div_add_mod])

theorem takeVarint_nil {bits : Nat} (hb : bits % 7 ≠ 0) : takeVarint bits [] = .error .unexpectedEnd := by
  unfold takeVarint
  rw [varintMax_eq hb]
  rfl

/-- What the reader leaves is what stood behind at least one byte. -/
theorem takeGroups_split (bits : Nat) : ∀ (k : Nat) (bs : List UInt8) (v : Nat) (rest : List UInt8),
    takeGroups bits k bs = .ok (v, rest) → ∃ b front, bs = b :: front ++ rest
  | 0, _, _, _, h => by cases h
  | _ + 1, [], _, _, h => by cases h
  | k + 1, b :: bs, v, rest, h => by
    rw [takeGroups] at h
    split at h
    · split at h
      · cases h
      · cases h
        exact ⟨b, [], rfl⟩
    · split at h
      · cases h
      · rename_i v' rest' hk
        cases h
        obtain ⟨b', front, rfl⟩ := takeGroups_split bits k bs v' _ hk
        exact ⟨b, b' :: front, rfl⟩

theorem takeVarint_length {bits : Nat} {bs rest : List UInt8} {v : Nat} (h : takeVarint bits bs = .ok (v, rest)) :
    rest.length < bs.length := by
  obtain ⟨b, front, rfl⟩ := takeGroups_split bits _ bs v rest h
  simp only [List.length_append, List.length_cons]
  omega

/-! ## Readers that do not look behind what they read -/

/-- The reader takes a front of its input and answers the same whatever follows that front. -/
def Local {α : Type} (read : List UInt8 → Except Error (α × List UInt8)) : Prop :=
  ∀ ⦃bs : List UInt8⦄ ⦃x : α⦄ ⦃rest : List UInt8⦄, read bs = .ok (x, rest) →
    ∃ front, bs = front ++ rest ∧ ∀ rest', read (front ++ rest') = .ok (x, rest')

theorem local_takeGroups (bits : Nat) : ∀ k, Local (takeGroups bits k)
  | 0 => by
    intro bs x rest h
    cases h
  | k + 1 => by
    intro bs x rest h
    cases bs with
    | nil => cases h
    | cons b bs =>
      rw [takeGroups] at h
      by_cases hlast : b.toNat < 128
      · rw [if_pos hlast] at h
        split at h
        · cases h
        · rename_i hmax
          cases h
          refine ⟨[b], rfl, fun rest' => ?_⟩
          rw [List.singleton_append, takeGroups, if_pos hlast, if_neg hmax]
      · rw [if_neg hlast] at h
        cases hk : takeGroups bits k bs with
        | error e =>
          rw [hk] at h
          cases h
        | ok read =>
          rw [hk] at h
          cases h
          obtain ⟨front, rfl, hfront⟩ := local_takeGroups bits k hk
          refine ⟨b :: front, rfl, fun rest' => ?_⟩
          rw [List.cons_append, takeGroups, if_neg hlast, hfront]

theorem local_takeVarint (bits : Nat) : Local (takeVarint bits) := local_takeGroups bits (varintMax bits)

theorem Local.pure {α : Type} (x : α) : Local (fun bs => .ok (x, bs)) := by
  intro bs y rest h
  cases h
  exact ⟨[], rfl, fun _ => rfl⟩

/-- **Readers in sequence.** -/
theorem Local.bind {α β : Type} {read : List UInt8 → Except Error (α × List UInt8)}
    {next : α → List UInt8 → Except Error (β × List UInt8)} (hread : Local read) (hnext : ∀ a, Local (next a)) :
    Local (fun bs => (read bs).bind (fun p => next p.1 p.2)) := by
  intro bs x rest h
  cases hfirst : read bs with
  | error e =>
    simp only [hfirst] at h
    cases h
  | ok p =>
    simp only [hfirst] at h
    obtain ⟨front, rfl, hfront⟩ := hread hfirst
    obtain ⟨front', hsplit, hfront'⟩ := hnext p.1 h
    refine ⟨front ++ front', by rw [hsplit, List.append_assoc], fun rest' => ?_⟩
    simp only [List.append_assoc, hfront]
    exact hfront' rest'

/-! ## The width -/

theorem log_div_add_one {v : Nat} (h : 128 ≤ v) : Nat.log 128 v = Nat.log 128 (v / 128) + 1 :=
  Nat.log_of_one_lt_of_le (by decide) h

theorem length_putVarint (c : Nat) (hc : c ≤ 7) : ∀ (k v : Nat), v < 2 ^ (7 * k + c) →
    (putVarint (k + 1) v).length = Nat.log 128 v + 1
  | 0, v, hv => by
    have h7 : 2 ^ c ≤ 2 ^ 7 := Nat.pow_le_pow_right (by decide) hc
    rw [Nat.mul_zero, Nat.zero_add] at hv
    have h128 : v < 128 := by omega
    simp [putVarint, h128, Nat.log_of_lt h128]
  | k + 1, v, hv => by
    by_cases h128 : v < 128
    · simp [putVarint, h128, Nat.log_of_lt h128]
    · have hdiv : v / 128 < 2 ^ (7 * k + c) := by
        rw [two_pow_seven_mul_succ] at hv
        exact Nat.div_lt_of_lt_mul hv
      have hlog := log_div_add_one (show 128 ≤ v by omega)
      rw [putVarint, if_neg h128, List.length_cons, length_putVarint c hc k (v / 128) hdiv, hlog]

/-- The number of seven-bit groups of a value: one at least. -/
def varintLen (v : Nat) : Nat := Nat.log 128 v + 1

/-- **A varint takes one byte per seven-bit group of its value**, whatever the type's width. -/
theorem length_varint {bits : Nat} (hb : bits % 7 ≠ 0) {v : Nat} (hv : v < 2 ^ bits) :
    (varint bits v).length = varintLen v := by
  unfold varint varintLen
  rw [varintMax_eq hb]
  exact length_putVarint (bits % 7) (by omega) (bits / 7) v (by rwa [Nat.div_add_mod])

theorem varintLen_of_lt {v : Nat} (h : v < 128) : varintLen v = 1 := by
  unfold varintLen; rw [Nat.log_of_lt h]

/-- `k` bytes are enough exactly for the values below `128 ^ k`. -/
theorem varintLen_le_iff {v k : Nat} (hk : k ≠ 0) : varintLen v ≤ k ↔ v < 128 ^ k := by
  unfold varintLen
  rw [Nat.succ_le_iff]
  constructor
  · exact Nat.lt_pow_of_log_lt (by decide)
  · exact Nat.log_lt_of_lt_pow' hk

theorem varintLen_le {v k : Nat} (hk : k ≠ 0) (h : v < 128 ^ k) : varintLen v ≤ k := (varintLen_le_iff hk).2 h

end Postcard
