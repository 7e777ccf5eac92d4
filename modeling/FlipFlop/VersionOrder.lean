import FlipFlop.VersionText
import FlipFlop.Semver
/-!
# VersionOrder — versions in their order (`data/src/update.rs`)

The source compares the fields of two versions.  `cmp_eq_precedence` says that this is the precedence of semantic versions
on what the two are displayed as, and the laws of an order come with it.
-/
namespace FlipFlop
namespace SoftwareUpdate

open Semver Std

/-! ## Displayed numbers -/

theorem compare_toNat (a b : UInt8) : compare a.toNat b.toNat = compare a b := by
  change compareOfLessAndEq a.toNat b.toNat = compareOfLessAndEq a b
  unfold compareOfLessAndEq
  simp only [← UInt8.lt_iff_toNat_lt, UInt8.toNat_inj]

theorem value_fmtU8 (n : UInt8) : value (fmtU8 n) = n.toNat := (isNumber_fmtU8 n).2.2

theorem isNumeric_fmtU8 (n : UInt8) : isNumeric (fmtU8 n) = true := by
  obtain ⟨hne, hdigits, -⟩ := isNumber_fmtU8 n
  rw [isNumeric, List.all_eq_true.2 hdigits, Bool.and_true]
  simpa using hne

theorem compareIdentifier_fmtU8 (a b : UInt8) : compareIdentifier (fmtU8 a) (fmtU8 b) = compare a b := by
  rw [compareIdentifier, isNumeric_fmtU8, isNumeric_fmtU8]
  dsimp only
  rw [value_fmtU8, value_fmtU8, compare_toNat]

/-! ## Displayed versions -/

def Version.coreText (v : Version) : List Char := fmtU8 v.major ++ '.' :: (fmtU8 v.minor ++ '.' :: fmtU8 v.patch)

def PreRelease.word : PreRelease → List Char
  | .alpha _ => "alpha".toList
  | .beta _ => "beta".toList

def PreRelease.ident : PreRelease → UInt8
  | .alpha ident => ident
  | .beta ident => ident

def PreRelease.text (pre : PreRelease) : List Char := pre.word ++ '.' :: fmtU8 pre.ident

theorem fmt_eq (v : Version) : v.fmt = v.coreText ++ (match v.pre with
    | none => []
    | some pre => '-' :: pre.text) := by
  obtain ⟨major, minor, patch, pre⟩ := v
  cases pre with
  | none => simp [Version.fmt, Version.coreText]
  | some pre => cases pre <;> simp [Version.fmt, Version.coreText, PreRelease.text, PreRelease.word, PreRelease.ident]

theorem not_mem_coreText (v : Version) {c : Char} (hc : c.isDigit = false) (hdot : c ≠ '.') : c ∉ v.coreText := by
  have hnum : ∀ n, c ∉ fmtU8 n := fun n => (isNumber_fmtU8 n).not_mem hc
  simp [Version.coreText, hnum, hdot]

theorem plus_not_mem_text (pre : PreRelease) : '+' ∉ pre.text := by
  have hnum : ∀ n, '+' ∉ fmtU8 n := fun n => (isNumber_fmtU8 n).not_mem (by decide)
  cases pre <;> simp [PreRelease.text, PreRelease.word, hnum]

theorem parts_fmt (v : Version) : core v.fmt = v.coreText ∧ preRelease v.fmt = v.pre.map PreRelease.text := by
  have hplus : '+' ∉ v.coreText := not_mem_coreText v (by decide) (by decide)
  have hhyphen : '-' ∉ v.coreText := not_mem_coreText v (by decide) (by decide)
  rw [fmt_eq]
  cases v.pre with
  | none =>
    rw [List.append_nil]
    exact ⟨core_release hplus hhyphen, preRelease_release hplus hhyphen⟩
  | some pre =>
    have hplus : '+' ∉ v.coreText ++ '-' :: pre.text := by simp [hplus, plus_not_mem_text]
    exact ⟨core_append hplus hhyphen, preRelease_append hplus hhyphen⟩

/-! ## The order -/

theorem identifiers_coreText (v : Version) : identifiers v.coreText = [fmtU8 v.major, fmtU8 v.minor, fmtU8 v.patch] := by
  have hdot : ∀ n, '.' ∉ fmtU8 n := fun n => (isNumber_fmtU8 n).not_mem (by decide)
  rw [Version.coreText, identifiers_append (hdot _), identifiers_append (hdot _), identifiers_eq_singleton (hdot _)]

theorem compareCore_coreText (a b : Version) : compareCore a.coreText b.coreText =
    (compare a.major b.major).then ((compare a.minor b.minor).then (compare a.patch b.patch)) := by
  rw [compareCore, identifiers_coreText, identifiers_coreText, List.compareLex_cons_cons, List.compareLex_cons_cons,
    List.compareLex_cons_cons, List.compareLex_nil_nil, Ordering.then_eq]
  simp only [value_fmtU8, compare_toNat]

theorem identifiers_text (pre : PreRelease) : identifiers pre.text = [pre.word, fmtU8 pre.ident] := by
  have hword : '.' ∉ pre.word := by cases pre <;> simp [PreRelease.word]
  rw [PreRelease.text, identifiers_append hword,
    identifiers_eq_singleton ((isNumber_fmtU8 pre.ident).not_mem (by decide))]

/-- The names in ASCII order come before the numbers. -/
theorem cmp_eq_compareLex (a b : PreRelease) :
    a.cmp b = (identifiers a.text).compareLex compareIdentifier (identifiers b.text) := by
  rw [identifiers_text, identifiers_text, List.compareLex_cons_cons, List.compareLex_cons_cons, List.compareLex_nil_nil,
    Ordering.then_eq, compareIdentifier_fmtU8]
  cases a with
  | alpha => cases b <;> rfl
  | beta => cases b <;> rfl

theorem cmp_eq_precedence (a b : Version) : a.cmp b = precedence a.fmt b.fmt := by
  rw [precedence, (parts_fmt a).1, (parts_fmt b).1, (parts_fmt a).2, (parts_fmt b).2, compareCore_coreText,
    ← Ordering.then_assoc (compare a.major b.major)]
  unfold Version.cmp
  apply congrArg
  cases a.pre with
  | none => cases b.pre <;> rfl
  | some pre =>
    cases b.pre with
    | none => rfl
    | some pre' => exact cmp_eq_compareLex pre pre'

theorem PreRelease.eq_of_cmp {a b : PreRelease} (h : a.cmp b = .eq) : a = b := by
  cases a with
  | alpha ident =>
    cases b with
    | alpha ident' => exact congrArg _ (LawfulEqOrd.eq_of_compare h)
    | beta => cases h
  | beta ident =>
    cases b with
    | alpha => cases h
    | beta ident' => exact congrArg _ (LawfulEqOrd.eq_of_compare h)

theorem Version.eq_of_cmp {a b : Version} (h : a.cmp b = .eq) : a = b := by
  obtain ⟨major, minor, patch, pre⟩ := a
  obtain ⟨major', minor', patch', pre'⟩ := b
  simp only [Version.cmp, Ordering.then_eq_eq] at h
  obtain ⟨⟨⟨hmajor, hminor⟩, hpatch⟩, hpre⟩ := h
  obtain rfl := LawfulEqOrd.eq_of_compare hmajor
  obtain rfl := LawfulEqOrd.eq_of_compare hminor
  obtain rfl := LawfulEqOrd.eq_of_compare hpatch
  cases pre with
  | none =>
    cases pre' with
    | none => rfl
    | some => cases hpre
  | some pre =>
    cases pre' with
    | none => cases hpre
    | some pre' => rw [PreRelease.eq_of_cmp hpre]

/-- **Versions are totally ordered, and in the order that semantic versions have as they are displayed.** -/
theorem cmp_total_order (a b c : Version) :
    (a.cmp b = .eq ↔ a = b)
    ∧ b.cmp a = (a.cmp b).swap
    ∧ ((a.cmp b).isLE → (b.cmp c).isLE → (a.cmp c).isLE)
    ∧ a.cmp b = precedence a.fmt b.fmt := by
  refine ⟨⟨Version.eq_of_cmp, ?_⟩, ?_, ?_, cmp_eq_precedence a b⟩
  · rintro rfl
    rw [cmp_eq_precedence]
    exact ReflCmp.compare_self
  · rw [cmp_eq_precedence, cmp_eq_precedence]
    exact OrientedCmp.eq_swap
  · rw [cmp_eq_precedence, cmp_eq_precedence, cmp_eq_precedence]
    exact TransCmp.isLE_trans

end SoftwareUpdate
end FlipFlop
