import FlipFlop.Serde
/-!
# Version — the versions of software updates (`data/src/update.rs`)

A limited form of semantic versions: three numbers and a pre-release that is an alpha or a beta with a number.  Parsing
is the source's chain of splits at the first occurrence of a separator, over the characters of the string, and displaying
gives these characters.
-/
namespace FlipFlop
namespace SoftwareUpdate

open Postcard

inductive PreRelease
  | alpha (ident : UInt8)
  | beta (ident : UInt8)
  deriving Repr, DecidableEq

def PreRelease.cmp : PreRelease → PreRelease → Ordering
  | .alpha selfIdent, .alpha otherIdent => compare selfIdent otherIdent
  | .alpha _, .beta _ => .lt
  | .beta _, .alpha _ => .gt
  | .beta selfIdent, .beta otherIdent => compare selfIdent otherIdent

structure Version where
  major : UInt8
  minor : UInt8
  patch : UInt8
  pre : Option PreRelease
  deriving Repr, DecidableEq

def Version.cmp (self other : Version) : Ordering :=
  (((compare self.major other.major).then (compare self.minor other.minor)).then
    (compare self.patch other.patch)).then
    (match self.pre, other.pre with
     | none, none => .eq
     | none, some _ => .gt
     | some _, none => .lt
     | some selfPre, some otherPre => selfPre.cmp otherPre)

/-! ## Displaying -/

/-- `Display` of a `u8`: its decimal digits. -/
def fmtU8 (n : UInt8) : List Char := Nat.toDigits 10 n.toNat

def Version.fmt (v : Version) : List Char :=
  fmtU8 v.major ++ '.' :: fmtU8 v.minor ++ '.' :: fmtU8 v.patch ++
    match v.pre with
    | some (.alpha ident) => "-alpha.".toList ++ fmtU8 ident
    | some (.beta ident) => "-beta.".toList ++ fmtU8 ident
    | none => []

/-! ## Parsing -/

/-- `str::split_once` at a character. -/
def splitOnce (c : Char) : List Char → Option (List Char × List Char)
  | [] => none
  | x :: s => if x = c then some ([], s) else (splitOnce c s).map (fun (l, r) => (x :: l, r))

/-- `str::split_once` at a string. -/
def splitOnceStr (pat : List Char) : List Char → Option (List Char × List Char)
  | [] => if pat.isEmpty then some ([], []) else none
  | x :: s =>
    if pat.isPrefixOf (x :: s) then some ([], (x :: s).drop pat.length)
    else (splitOnceStr pat s).map (fun (l, r) => (x :: l, r))

/-- The digits of a `u8`, refused as soon as the number is too great. -/
def parseDigits : Nat → List Char → Option Nat
  | n, [] => some n
  | n, c :: s =>
    if c.isDigit then
      let n := n * 10 + (c.toNat - '0'.toNat)
      if n < 256 then parseDigits n s else none
    else none

/-- `str::parse::<u8>`: at least one digit, with a plus sign in front or none. -/
def parseU8 : List Char → Option UInt8
  | [] => none
  | '+' :: s => if s.isEmpty then none else (parseDigits 0 s).map UInt8.ofNat
  | s => (parseDigits 0 s).map UInt8.ofNat

structure ParseVersionErr where
  deriving Repr, DecidableEq

def okOr {α : Type} : Option α → Except ParseVersionErr α
  | some a => .ok a
  | none => .error {}

def Version.fromStr (s : List Char) : Except ParseVersionErr Version := do
  let (l, r) ← okOr (splitOnce '.' s)
  let major ← okOr (parseU8 l)
  let (l, r) ← okOr (splitOnce '.' r)
  let minor ← okOr (parseU8 l)
  let r := match splitOnce '+' r with
    | some (l, _) => l
    | none => r
  let (l, r) := match splitOnce '-' r with
    | some (l, r) => (l, r)
    | none => (r, [])
  let patch ← okOr (parseU8 l)
  let pre ← match splitOnceStr "alpha.".toList r with
    | some (_, r) => do
      let ident ← okOr (parseU8 r)
      pure (some (PreRelease.alpha ident))
    | none =>
      match splitOnceStr "beta.".toList r with
      | some (_, r) => do
        let ident ← okOr (parseU8 r)
        pure (some (PreRelease.beta ident))
      | none => pure none
  return { major, minor, patch, pre }

/-! ## On the wire -/

instance : Serde PreRelease where
  ser
    | .alpha ident => varint 32 0 ++ ser ident
    | .beta ident => varint 32 1 ++ ser ident
  de bs :=
    match takeVarint 32 bs with
    | .error e => .error e
    | .ok (0, rest) => (de rest).map (fun (ident, rest) => (.alpha ident, rest))
    | .ok (1, rest) => (de rest).map (fun (ident, rest) => (.beta ident, rest))
    | .ok (_, _) => .error .custom

instance : LawfulSerde PreRelease := ⟨fun p rest => by cases p <;> rfl⟩

instance : Serde Version :=
  Serde.via (fun v => (v.major, v.minor, v.patch, v.pre)) (fun (major, minor, patch, pre) => ⟨major, minor, patch, pre⟩)

instance : LawfulSerde Version := LawfulSerde.via _ _ (fun _ => rfl)

theorem length_ser_version_le (v : Version) : (ser v).length ≤ 6 := by
  obtain ⟨major, minor, patch, pre⟩ := v
  cases pre with
  | none => exact Nat.le_of_ble_eq_true rfl
  | some pre => cases pre <;> exact Nat.le_of_ble_eq_true rfl

end SoftwareUpdate
end FlipFlop
