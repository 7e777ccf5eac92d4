import Mathlib
/-!
# Semver — the precedence of semantic versions

Semantic versions 2.0 as texts, and the order in which they precede each other: the three numbers of the core first, then
the pre-release, identifier by identifier.  Build metadata does not take part.  The order is total on texts up to what it
does not look at (`transCmp_precedence`).
-/
namespace Semver

open Std

/-! ## The parts of a version -/

def withoutBuild (s : List Char) : List Char := s.takeWhile (· ≠ '+')

def core (s : List Char) : List Char := (withoutBuild s).takeWhile (· ≠ '-')

def preRelease (s : List Char) : Option (List Char) :=
  match (withoutBuild s).dropWhile (· ≠ '-') with
  | [] => none
  | _ :: t => some t

def identifiers (s : List Char) : List (List Char) := s.splitOn '.'

/-! ## Precedence -/

def isNumeric (s : List Char) : Bool := !s.isEmpty && s.all Char.isDigit

def value (s : List Char) : Nat := Nat.ofDigitChars 10 s 0

/-- Numeric identifiers compare as numbers and come before the others, which compare in ASCII order. -/
def compareIdentifier (a b : List Char) : Ordering :=
  match isNumeric a, isNumeric b with
  | true, true => compare (value a) (value b)
  | true, false => .lt
  | false, true => .gt
  | false, false => compare a b

/-- A pre-release comes before its release.  Of two pre-releases the first identifiers that differ decide, and where one
runs out it is the lower. -/
def comparePreRelease : Option (List Char) → Option (List Char) → Ordering
  | none, none => .eq
  | none, some _ => .gt
  | some _, none => .lt
  | some a, some b => (identifiers a).compareLex compareIdentifier (identifiers b)

def compareCore (a b : List Char) : Ordering :=
  (identifiers a).compareLex (fun x y => compare (value x) (value y)) (identifiers b)

def precedence (a b : List Char) : Ordering :=
  (compareCore (core a) (core b)).then (comparePreRelease (preRelease a) (preRelease b))

/-! ## The order is transitive -/

theorem transCmp_on {α β : Type} (f : α → β) (cmp : β → β → Ordering) [TransCmp cmp] :
    TransCmp (fun a b => cmp (f a) (f b)) where
  eq_swap := OrientedCmp.eq_swap
  isLE_trans := TransCmp.isLE_trans

/-- An identifier as numbers and a text that compare one after the other. -/
def identifierKey (s : List Char) : List Nat × List Char :=
  if isNumeric s then ([0, value s], []) else ([1], s)

theorem compareIdentifier_eq (a b : List Char) : compareIdentifier a b =
    compareLex (compareOn Prod.fst) (compareOn Prod.snd) (identifierKey a) (identifierKey b) := by
  unfold compareIdentifier identifierKey
  cases isNumeric a with
  | false =>
    cases isNumeric b with
    | false => simp [compareLex, compareOn]
    | true => rfl
  | true =>
    cases isNumeric b with
    | false => rfl
    | true => simp [compareLex, compareOn]

instance : TransCmp compareIdentifier := by
  have hkey : compareIdentifier =
      fun a b => compareLex (compareOn Prod.fst) (compareOn Prod.snd) (identifierKey a) (identifierKey b) :=
    funext fun a => funext fun b => compareIdentifier_eq a b
  rw [hkey]
  exact transCmp_on identifierKey _

instance : TransCmp comparePreRelease where
  eq_swap := by
    have hident : OrientedCmp (List.compareLex compareIdentifier) := inferInstance
    intro a b
    cases a with
    | none => cases b <;> rfl
    | some a =>
      cases b with
      | none => rfl
      | some b => exact hident.eq_swap
  isLE_trans := by
    have hident : TransCmp (List.compareLex compareIdentifier) := inferInstance
    intro a b c hab hbc
    cases a with
    | none =>
      cases b with
      | none => exact hbc
      | some b => cases hab
    | some a =>
      cases c with
      | none => rfl
      | some c =>
        cases b with
        | none => cases hbc
        | some b => exact hident.isLE_trans hab hbc

instance : TransCmp compareCore := by
  have : TransCmp (fun x y => compare (value x) (value y)) := transCmp_on value compare
  exact transCmp_on identifiers (List.compareLex (fun x y => compare (value x) (value y)))

instance transCmp_precedence : TransCmp precedence := by
  have := transCmp_on core compareCore
  have := transCmp_on preRelease comparePreRelease
  exact inferInstanceAs (TransCmp (compareLex (fun a b => compareCore (core a) (core b))
    (fun a b => comparePreRelease (preRelease a) (preRelease b))))

/-! ## The parts of a text that is put together -/

theorem all_ne {c : Char} {l : List Char} (hl : c ∉ l) : ∀ x ∈ l, decide (x ≠ c) = true := by
  intro x hx
  exact decide_eq_true (fun h => hl (h ▸ hx))

theorem withoutBuild_eq {s : List Char} (hs : '+' ∉ s) : withoutBuild s = s :=
  List.takeWhile_eq_self_iff.2 (all_ne hs)

theorem core_release {c : List Char} (hplus : '+' ∉ c) (hc : '-' ∉ c) : core c = c := by
  rw [core, withoutBuild_eq hplus]
  exact List.takeWhile_eq_self_iff.2 (all_ne hc)

theorem preRelease_release {c : List Char} (hplus : '+' ∉ c) (hc : '-' ∉ c) : preRelease c = none := by
  rw [preRelease, withoutBuild_eq hplus, List.dropWhile_eq_nil_iff.2 (all_ne hc)]

theorem core_append {c t : List Char} (hplus : '+' ∉ c ++ '-' :: t) (hc : '-' ∉ c) : core (c ++ '-' :: t) = c := by
  rw [core, withoutBuild_eq hplus, List.takeWhile_append_of_pos (all_ne hc), List.takeWhile_cons_of_neg (by simp),
    List.append_nil]

theorem preRelease_append {c t : List Char} (hplus : '+' ∉ c ++ '-' :: t) (hc : '-' ∉ c) :
    preRelease (c ++ '-' :: t) = some t := by
  rw [preRelease, withoutBuild_eq hplus, List.dropWhile_append_of_pos (all_ne hc), List.dropWhile_cons_of_neg (by simp)]

theorem identifiers_append {l : List Char} (hl : '.' ∉ l) (r : List Char) :
    identifiers (l ++ '.' :: r) = l :: identifiers r :=
  List.splitOn_append_cons_self_of_not_mem hl r

theorem identifiers_eq_singleton {l : List Char} (hl : '.' ∉ l) : identifiers l = [l] :=
  List.splitOn_eq_singleton hl

end Semver
