import FlipFlop.Version
/-!
# VersionText — versions as text (`data/src/update.rs`)

The grammar of a version is three numbers, a pre-release that is `-alpha.` or `-beta.` and a number, and a build text
after a plus sign.  The parser reads every version of the grammar for what it is (`fromStr_of_grammar`), and with it what
is displayed (`fromStr_fmt`).  It reads more than the grammar has: a sign in front of the first two numbers, and after
the hyphen any text without `alpha.` and `beta.`, and any text in front of these (`fromStr_exact_iff`).
-/
namespace FlipFlop
namespace SoftwareUpdate

/-! ## Splitting at the first occurrence -/

theorem splitOnce_eq_none {c : Char} : ∀ {s : List Char}, splitOnce c s = none ↔ c ∉ s
  | [] => by simp [splitOnce]
  | x :: s => by
    rw [splitOnce]
    by_cases hx : x = c
    · simp [hx]
    · simp [hx, Ne.symm hx, splitOnce_eq_none (c := c) (s := s)]

theorem splitOnce_append {c : Char} : ∀ {l : List Char} (r : List Char), c ∉ l → splitOnce c (l ++ c :: r) = some (l, r)
  | [], r, _ => by simp [splitOnce]
  | x :: l, r, h => by
    obtain ⟨hx, hl⟩ := not_or.1 (fun hor => h (List.mem_cons.2 hor))
    rw [List.cons_append, splitOnce, if_neg (Ne.symm hx), splitOnce_append r hl]
    rfl

theorem of_splitOnce {c : Char} : ∀ {s l r : List Char}, splitOnce c s = some (l, r) → s = l ++ c :: r ∧ c ∉ l
  | [], l, r, h => by cases h
  | x :: s, l, r, h => by
    rw [splitOnce] at h
    by_cases hx : x = c
    · rw [if_pos hx, Option.some.injEq, Prod.mk.injEq] at h
      obtain ⟨rfl, rfl⟩ := h
      exact ⟨by rw [hx]; rfl, List.not_mem_nil⟩
    · rw [if_neg hx] at h
      obtain ⟨⟨l', r'⟩, hs, hlr⟩ := Option.map_eq_some_iff.1 h
      obtain ⟨rfl, rfl⟩ := Prod.mk.inj hlr
      obtain ⟨rfl, hl⟩ := of_splitOnce hs
      exact ⟨rfl, fun hmem => (List.mem_cons.1 hmem).elim (Ne.symm hx) hl⟩

/-- Two texts cut at the first occurrence of a character are cut alike. -/
theorem cut_unique {c : Char} {l l' r r' : List Char} (h : l ++ c :: r = l' ++ c :: r') (hl : c ∉ l) (hl' : c ∉ l') :
    l = l' ∧ r = r' := by
  have hs := splitOnce_append r hl
  rw [h, splitOnce_append r' hl', Option.some.injEq, Prod.mk.injEq] at hs
  exact ⟨hs.1.symm, hs.2.symm⟩

theorem splitOnceStr_eq_none {pat : List Char} (hpat : pat ≠ []) : ∀ {s : List Char},
    splitOnceStr pat s = none ↔ ¬ pat <:+: s
  | [] => by
    have hempty : pat.isEmpty = false := by simpa using hpat
    simp [splitOnceStr, hempty, hpat]
  | x :: s => by
    have ih := splitOnceStr_eq_none hpat (s := s)
    rw [splitOnceStr, List.infix_cons_iff]
    by_cases hpre : pat.isPrefixOf (x :: s) = true
    · simp [hpre, List.isPrefixOf_iff_prefix.1 hpre]
    · have hnot : ¬ pat <+: x :: s := fun hp => hpre (List.isPrefixOf_iff_prefix.2 hp)
      simp [hpre, hnot, ih]

theorem of_splitOnceStr {pat : List Char} (hpat : pat ≠ []) : ∀ {s l r : List Char},
    splitOnceStr pat s = some (l, r) → s = l ++ (pat ++ r) ∧ ¬ pat <:+: l
  | [], l, r, h => by
    have hempty : pat.isEmpty = false := by simpa using hpat
    simp [splitOnceStr, hempty] at h
  | x :: s, l, r, h => by
    rw [splitOnceStr] at h
    by_cases hpre : pat.isPrefixOf (x :: s) = true
    · rw [if_pos hpre, Option.some.injEq, Prod.mk.injEq] at h
      obtain ⟨rfl, rfl⟩ := h
      obtain ⟨rest, hrest⟩ := List.isPrefixOf_iff_prefix.1 hpre
      refine ⟨?_, by simpa using hpat⟩
      rw [← hrest, List.drop_left, List.nil_append]
    · rw [if_neg hpre] at h
      obtain ⟨⟨l', r'⟩, hs, hlr⟩ := Option.map_eq_some_iff.1 h
      obtain ⟨rfl, rfl⟩ := Prod.mk.inj hlr
      obtain ⟨rfl, hl⟩ := of_splitOnceStr hpat hs
      refine ⟨rfl, fun hin => ?_⟩
      rcases List.infix_cons_iff.1 hin with hp | hp
      · exact hpre (List.isPrefixOf_iff_prefix.2 (hp.trans (List.prefix_append (x :: l') (pat ++ r'))))
      · exact hl hp

/-- A separator that ends in a character it has nowhere else does not reach from one occurrence of itself into another. -/
theorem nil_or_infix {p a r r' : List Char} {c : Char} (hc : c ∉ p)
    (h : (p ++ [c]) ++ r = a ++ ((p ++ [c]) ++ r')) : a = [] ∨ p ++ [c] <:+: a := by
  rcases List.append_eq_append_iff.1 h with ⟨d, rfl, -⟩ | ⟨b, hp, hr⟩
  · exact .inr (List.prefix_append _ d).isInfix
  · rcases List.eq_nil_or_concat' b with rfl | ⟨b, x, rfl⟩
    · rw [List.append_nil] at hp
      exact .inr (hp ▸ List.infix_refl _)
    · -- the part of the separator that is behind `a` ends in its last character, so that it is all of the separator
      rw [← List.append_assoc] at hp
      obtain ⟨hpa, hx⟩ := List.append_inj' hp rfl
      obtain rfl : c = x := List.singleton_inj.1 hx
      rw [List.append_assoc, List.append_assoc] at hr
      have hb : c ∉ b := fun hmem => hc (hpa ▸ List.mem_append_right a hmem)
      obtain ⟨rfl, -⟩ := cut_unique hr hc hb
      exact .inl (List.append_left_eq_self.1 hpa.symm)

/-- Two texts cut at the first occurrence of such a separator are cut alike. -/
theorem cutStr_unique {p l l' r r' : List Char} {c : Char} (hc : c ∉ p)
    (h : l ++ ((p ++ [c]) ++ r) = l' ++ ((p ++ [c]) ++ r')) (hl : ¬ p ++ [c] <:+: l) (hl' : ¬ p ++ [c] <:+: l') :
    l = l' ∧ r = r' := by
  have hll : l = l' := by
    rcases List.append_eq_append_iff.1 h with ⟨a, rfl, ha⟩ | ⟨a, rfl, ha⟩
    · rcases nil_or_infix hc ha with rfl | hin
      · exact (List.append_nil l).symm
      · exact absurd (hin.trans (List.suffix_append l a).isInfix) hl'
    · rcases nil_or_infix hc ha with rfl | hin
      · exact List.append_nil l'
      · exact absurd (hin.trans (List.suffix_append l' a).isInfix) hl
  subst hll
  exact ⟨rfl, List.append_cancel_left (List.append_cancel_left h)⟩

theorem splitOnceStr_append {p l : List Char} {c : Char} (r : List Char) (hc : c ∉ p) (hl : ¬ p ++ [c] <:+: l) :
    splitOnceStr (p ++ [c]) (l ++ ((p ++ [c]) ++ r)) = some (l, r) := by
  have hpat : p ++ [c] ≠ [] := by simp
  cases hs : splitOnceStr (p ++ [c]) (l ++ ((p ++ [c]) ++ r)) with
  | none => exact absurd ⟨l, r, List.append_assoc l (p ++ [c]) r⟩ ((splitOnceStr_eq_none hpat).1 hs)
  | some lr =>
    obtain ⟨hcut, hl'⟩ := of_splitOnceStr hpat hs
    obtain ⟨h1, h2⟩ := cutStr_unique hc hcut hl hl'
    rw [h1, h2]

/-! ## Numbers -/

/-- The numbers of a version: decimal digits, at least one of them, of a value that is at most 255. -/
def IsNumber (s : List Char) (n : UInt8) : Prop :=
  s ≠ [] ∧ (∀ c ∈ s, c.isDigit = true) ∧ Nat.ofDigitChars 10 s 0 = n.toNat

theorem IsNumber.not_mem {s : List Char} {n : UInt8} (h : IsNumber s n) {c : Char} (hc : c.isDigit = false) : c ∉ s := by
  intro hmem
  rw [h.2.1 c hmem] at hc
  cases hc

theorem isNumber_fmtU8 (n : UInt8) : IsNumber (fmtU8 n) n :=
  ⟨Nat.toDigits_ne_nil, fun _ hc => Nat.isDigit_of_mem_toDigits (by decide) (by decide) hc, Nat.ofDigitChars_ten_toDigits⟩

theorem le_ofDigitChars (s : List Char) (n : Nat) : n ≤ Nat.ofDigitChars 10 s n := by
  rw [Nat.ofDigitChars_eq_ofDigitChars_zero]
  exact le_trans (Nat.le_mul_of_pos_left n (Nat.pow_pos (by decide))) (Nat.le_add_right _ _)

theorem parseDigits_eq_some : ∀ {s : List Char} {n k : Nat}, n < 256 →
    (parseDigits n s = some k ↔ (∀ c ∈ s, c.isDigit = true) ∧ Nat.ofDigitChars 10 s n = k ∧ k < 256)
  | [], n, k, hn => by
    simp only [parseDigits, Option.some.injEq, List.not_mem_nil, false_imp_iff, implies_true, true_and,
      Nat.ofDigitChars_nil]
    exact ⟨fun h => ⟨h, h ▸ hn⟩, And.left⟩
  | c :: s, n, k, hn => by
    rw [parseDigits, Nat.ofDigitChars_cons, List.forall_mem_cons, Nat.mul_comm n 10]
    by_cases hc : c.isDigit = true
    · rw [if_pos hc]
      dsimp only
      by_cases hlt : 10 * n + (c.toNat - '0'.toNat) < 256
      · rw [if_pos hlt, parseDigits_eq_some hlt]
        exact ⟨fun h => ⟨⟨hc, h.1⟩, h.2⟩, fun h => ⟨h.1.2, h.2⟩⟩
      · rw [if_neg hlt]
        refine ⟨fun h => (by cases h), fun ⟨_, hk, hk256⟩ => ?_⟩
        have := le_ofDigitChars s (10 * n + (c.toNat - '0'.toNat))
        omega
    · rw [if_neg hc]
      exact ⟨fun h => (by cases h), fun h => absurd h.1.1 hc⟩

/-- What `u8` parses: a number, with a plus sign in front or none. -/
def Numeral (s : List Char) (n : UInt8) : Prop :=
  IsNumber s n ∨ ∃ d, s = '+' :: d ∧ IsNumber d n

theorem map_parseDigits {s : List Char} (hs : s ≠ []) {n : UInt8} :
    (parseDigits 0 s).map UInt8.ofNat = some n ↔ IsNumber s n := by
  rw [Option.map_eq_some_iff, IsNumber]
  constructor
  · rintro ⟨k, hk, rfl⟩
    obtain ⟨hdigits, hval, hlt⟩ := (parseDigits_eq_some (by decide)).1 hk
    refine ⟨hs, hdigits, ?_⟩
    rw [hval, UInt8.toNat_ofNat']
    exact (Nat.mod_eq_of_lt hlt).symm
  · rintro ⟨-, hdigits, hval⟩
    exact ⟨n.toNat, (parseDigits_eq_some (by decide)).2 ⟨hdigits, hval, n.toNat_lt⟩, UInt8.ofNat_toNat⟩

theorem parseU8_eq_some {s : List Char} {n : UInt8} : parseU8 s = some n ↔ Numeral s n := by
  unfold parseU8
  split
  · exact ⟨fun h => (by cases h), fun h => h.elim (fun h => absurd rfl h.1) (fun ⟨d, hd, _⟩ => (by cases hd))⟩
  · rename_i d
    have hsign : ¬ IsNumber ('+' :: d) n := fun h => absurd List.mem_cons_self (h.not_mem (by decide))
    by_cases hd : d = []
    · subst hd
      refine ⟨fun h => (by cases h), fun h => ?_⟩
      obtain ⟨d', hd', hnum⟩ := h.resolve_left hsign
      exact absurd (List.cons.inj hd').2.symm hnum.1
    · rw [if_neg (by simpa using hd), map_parseDigits hd]
      refine ⟨fun h => .inr ⟨d, rfl, h⟩, fun h => ?_⟩
      obtain ⟨d', hd', hnum⟩ := h.resolve_left hsign
      rwa [(List.cons.inj hd').2]
  · rename_i hnil hplus
    rw [map_parseDigits hnil]
    exact ⟨.inl, fun h => h.resolve_right (fun ⟨d, hd, _⟩ => hplus d hd)⟩

/-- A numeral without a plus sign is a number. -/
theorem Numeral.isNumber {s : List Char} {n : UInt8} (h : Numeral s n) (hs : '+' ∉ s) : IsNumber s n :=
  h.resolve_right (fun ⟨_, hd, _⟩ => hs (hd ▸ List.mem_cons_self))

theorem Numeral.not_mem {s : List Char} {n : UInt8} (h : Numeral s n) {c : Char} (hc : c.isDigit = false)
    (hplus : c ≠ '+') : c ∉ s := by
  rcases h with h | ⟨d, rfl, h⟩
  · exact h.not_mem hc
  · exact fun hmem => (List.mem_cons.1 hmem).elim hplus (h.not_mem hc)

/-! ## The grammar -/

/-- A pre-release of the grammar, from its hyphen on. -/
inductive PreText : List Char → Option PreRelease → Prop
  | absent : PreText [] none
  | alpha {i : List Char} {ident : UInt8} (hi : IsNumber i ident) :
      PreText ('-' :: ("alpha.".toList ++ i)) (some (.alpha ident))
  | beta {i : List Char} {ident : UInt8} (hi : IsNumber i ident) :
      PreText ('-' :: ("beta.".toList ++ i)) (some (.beta ident))

/-- A text that is empty or begins with a character. -/
def Begins (c : Char) (t : List Char) : Prop := t = [] ∨ ∃ t', t = c :: t'

/-- The parts of a version's text, the pre-release with its hyphen and the build text with its plus sign. -/
@[ext] structure Parts where
  major : List Char
  minor : List Char
  patch : List Char
  pre : List Char
  build : List Char

def Parts.text (q : Parts) : List Char :=
  q.major ++ '.' :: (q.minor ++ '.' :: (q.patch ++ q.pre ++ q.build))

/-- `M.m.p`, then `-alpha.i`, `-beta.i` or nothing, then a plus sign and any build text or nothing. -/
def Grammar (s : List Char) (v : Version) : Prop :=
  ∃ q : Parts, s = q.text ∧ IsNumber q.major v.major ∧ IsNumber q.minor v.minor ∧ IsNumber q.patch v.patch
    ∧ PreText q.pre v.pre ∧ Begins '+' q.build

/-! ## The parts at which the parser cuts -/

structure Parts.Cut (q : Parts) : Prop where
  major : '.' ∉ q.major
  minor : '.' ∉ q.minor
  patch : '-' ∉ q.patch
  pre : Begins '-' q.pre
  plus : '+' ∉ q.patch ++ q.pre
  build : Begins '+' q.build

theorem begins_unique {c : Char} {l l' t t' : List Char} (h : l ++ t = l' ++ t') (hl : c ∉ l) (hl' : c ∉ l')
    (ht : Begins c t) (ht' : Begins c t') : l = l' ∧ t = t' := by
  rcases ht with rfl | ⟨t, rfl⟩ <;> rcases ht' with rfl | ⟨t', rfl⟩
  · exact ⟨by simpa using h, rfl⟩
  · rw [List.append_nil] at h
    exact absurd (h ▸ List.mem_append_right l' List.mem_cons_self) hl
  · rw [List.append_nil] at h
    exact absurd (h ▸ List.mem_append_right l List.mem_cons_self) hl'
  · obtain ⟨rfl, rfl⟩ := cut_unique h hl hl'
    exact ⟨rfl, rfl⟩

theorem Parts.Cut.unique {q q' : Parts} (h : q.Cut) (h' : q'.Cut) (htext : q.text = q'.text) : q = q' := by
  obtain ⟨hmajor, hrest⟩ := cut_unique htext h.major h'.major
  obtain ⟨hminor, hrest⟩ := cut_unique hrest h.minor h'.minor
  obtain ⟨hrest, hbuild⟩ := begins_unique hrest h.plus h'.plus h.build h'.build
  obtain ⟨hpatch, hpre⟩ := begins_unique hrest h.patch h'.patch h.pre h'.pre
  exact Parts.ext hmajor hminor hpatch hpre hbuild

theorem exists_begins (c : Char) (s : List Char) : ∃ l t, s = l ++ t ∧ c ∉ l ∧ Begins c t := by
  cases hs : splitOnce c s with
  | none => exact ⟨s, [], (List.append_nil s).symm, splitOnce_eq_none.1 hs, .inl rfl⟩
  | some lr =>
    obtain ⟨hcut, hl⟩ := of_splitOnce hs
    exact ⟨lr.1, c :: lr.2, hcut, hl, .inr ⟨lr.2, rfl⟩⟩

/-! ## The parser on the parts -/

/-- The text in front of a character that may be absent. -/
def before (c : Char) (r : List Char) : List Char :=
  match splitOnce c r with
  | some (l, _) => l
  | none => r

/-- The texts in front of a character that may be absent and behind it. -/
def around (c : Char) (r : List Char) : List Char × List Char :=
  match splitOnce c r with
  | some (l, r) => (l, r)
  | none => (r, [])

def parsePre (r : List Char) : Except ParseVersionErr (Option PreRelease) :=
  match splitOnceStr "alpha.".toList r with
  | some (_, r) => do
    let ident ← okOr (parseU8 r)
    pure (some (PreRelease.alpha ident))
  | none =>
    match splitOnceStr "beta.".toList r with
    | some (_, r) => do
      let ident ← okOr (parseU8 r)
      pure (some (PreRelease.beta ident))
    | none => pure none

theorem parsePre_bind {β : Type} (r : List Char) (k : Option PreRelease → Except ParseVersionErr β) :
    parsePre r >>= k =
      match splitOnceStr "alpha.".toList r with
      | some (_, r) => okOr (parseU8 r) >>= fun ident => k (some (.alpha ident))
      | none =>
        match splitOnceStr "beta.".toList r with
        | some (_, r) => okOr (parseU8 r) >>= fun ident => k (some (.beta ident))
        | none => k none := by
  unfold parsePre
  cases splitOnceStr "alpha.".toList r with
  | some lr => exact bind_assoc _ _ _
  | none =>
    cases splitOnceStr "beta.".toList r with
    | some lr => exact bind_assoc _ _ _
    | none => rfl

theorem fromStr_eq (s : List Char) : Version.fromStr s = (do
    let lr ← okOr (splitOnce '.' s)
    let major ← okOr (parseU8 lr.1)
    let lr ← okOr (splitOnce '.' lr.2)
    let minor ← okOr (parseU8 lr.1)
    let patch ← okOr (parseU8 (around '-' (before '+' lr.2)).1)
    let pre ← parsePre (around '-' (before '+' lr.2)).2
    return { major, minor, patch, pre }) := by
  unfold Version.fromStr
  -- the source has the last step once, behind the three branches of the pre-release
  refine congrArg _ (funext fun lr => congrArg _ (funext fun major => congrArg _ (funext fun lr => congrArg _
    (funext fun minor => congrArg _ (funext fun patch => ?_)))))
  exact (parsePre_bind (around '-' (before '+' lr.2)).2 (fun pre => .ok (Version.mk major minor patch pre))).symm

theorem before_append {c : Char} {l t : List Char} (hl : c ∉ l) (ht : Begins c t) : before c (l ++ t) = l := by
  unfold before
  rcases ht with rfl | ⟨t, rfl⟩
  · rw [List.append_nil, splitOnce_eq_none.2 hl]
  · rw [splitOnce_append t hl]

theorem around_append {c : Char} {l t : List Char} (hl : c ∉ l) (ht : Begins c t) : around c (l ++ t) = (l, t.tail) := by
  unfold around
  rcases ht with rfl | ⟨t, rfl⟩
  · rw [List.append_nil, splitOnce_eq_none.2 hl]
    rfl
  · rw [splitOnce_append t hl]
    rfl

theorem okOr_bind_eq_ok {α β : Type} {o : Option α} {f : α → Except ParseVersionErr β} {b : β} :
    okOr o >>= f = .ok b ↔ ∃ a, o = some a ∧ f a = .ok b := by
  cases o with
  | none => exact ⟨fun h => (by cases h), fun ⟨_, h, _⟩ => (by cases h)⟩
  | some a => exact ⟨fun h => ⟨a, rfl, h⟩, fun ⟨_, ha, h⟩ => (by cases ha; exact h)⟩

theorem fromStr_text {q : Parts} (h : q.Cut) (v : Version) : Version.fromStr q.text = .ok v ↔
    Numeral q.major v.major ∧ Numeral q.minor v.minor ∧ Numeral q.patch v.patch ∧ parsePre q.pre.tail = .ok v.pre := by
  have hlast : ∀ major minor patch, (parsePre q.pre.tail >>= fun pre => pure ⟨major, minor, patch, pre⟩) = .ok v ↔
      major = v.major ∧ minor = v.minor ∧ patch = v.patch ∧ parsePre q.pre.tail = .ok v.pre := by
    intro major minor patch
    obtain ⟨major', minor', patch', pre'⟩ := v
    cases parsePre q.pre.tail with
    | error e => exact ⟨fun h => (by cases h), fun h => (by cases h.2.2.2)⟩
    | ok pre => simp [bind, Except.bind, pure, Except.pure]
  rw [fromStr_eq, Parts.text, splitOnce_append _ h.major]
  simp only [okOr_bind_eq_ok, Option.some.injEq, exists_eq_left', splitOnce_append _ h.minor, before_append h.plus h.build,
    around_append h.patch h.pre, parseU8_eq_some, hlast]
  constructor
  · rintro ⟨major, hmajor, minor, hminor, patch, hpatch, rfl, rfl, rfl, hpre⟩
    exact ⟨hmajor, hminor, hpatch, hpre⟩
  · rintro ⟨hmajor, hminor, hpatch, hpre⟩
    exact ⟨_, hmajor, _, hminor, _, hpatch, rfl, rfl, rfl, hpre⟩

/-- Whatever is read has the parts. -/
theorem exists_cut {s : List Char} {v : Version} (h : Version.fromStr s = .ok v) : ∃ q : Parts, q.Cut ∧ s = q.text := by
  rw [fromStr_eq, okOr_bind_eq_ok] at h
  obtain ⟨⟨major, r⟩, hs, h⟩ := h
  obtain ⟨_, _, h⟩ := okOr_bind_eq_ok.1 h
  obtain ⟨⟨minor, r⟩, hr, -⟩ := okOr_bind_eq_ok.1 h
  obtain ⟨rfl, hmajor⟩ := of_splitOnce hs
  obtain ⟨rfl, hminor⟩ := of_splitOnce hr
  obtain ⟨l, build, rfl, hplus, hbuild⟩ := exists_begins '+' r
  obtain ⟨patch, pre, rfl, hpatch, hpre⟩ := exists_begins '-' l
  exact ⟨⟨major, minor, patch, pre, build⟩, ⟨hmajor, hminor, hpatch, hpre, hplus, hbuild⟩, rfl⟩

/-! ## What is read beyond the grammar -/

/-- A pre-release that is read though the grammar does not have it: any text with neither name is dropped, and so is any
text in front of the first `alpha.`, or in front of the first `beta.` where there is no `alpha.`. -/
inductive LoosePre : List Char → Option PreRelease → Prop
  | unknown {t : List Char} (halpha : ¬ "alpha.".toList <:+: t) (hbeta : ¬ "beta.".toList <:+: t) :
      LoosePre ('-' :: t) none
  | alpha {x i : List Char} {ident : UInt8} (hx : x ≠ []) (halpha : ¬ "alpha.".toList <:+: x) (hi : IsNumber i ident) :
      LoosePre ('-' :: (x ++ ("alpha.".toList ++ i))) (some (.alpha ident))
  | beta {x i : List Char} {ident : UInt8} (hx : x ≠ []) (halpha : ¬ "alpha.".toList <:+: x ++ ("beta.".toList ++ i))
      (hbeta : ¬ "beta.".toList <:+: x) (hi : IsNumber i ident) :
      LoosePre ('-' :: (x ++ ("beta.".toList ++ i))) (some (.beta ident))

theorem parsePre_alpha {x i : List Char} {ident : UInt8} (halpha : ¬ "alpha.".toList <:+: x) (hi : IsNumber i ident) :
    parsePre (x ++ ("alpha.".toList ++ i)) = .ok (some (.alpha ident)) := by
  have hsplit : splitOnceStr "alpha.".toList (x ++ ("alpha.".toList ++ i)) = some (x, i) :=
    splitOnceStr_append (p := "alpha".toList) i (by decide) halpha
  rw [parsePre, hsplit]
  exact okOr_bind_eq_ok.2 ⟨ident, parseU8_eq_some.2 (.inl hi), rfl⟩

theorem parsePre_beta {x i : List Char} {ident : UInt8} (halpha : ¬ "alpha.".toList <:+: x ++ ("beta.".toList ++ i))
    (hbeta : ¬ "beta.".toList <:+: x) (hi : IsNumber i ident) :
    parsePre (x ++ ("beta.".toList ++ i)) = .ok (some (.beta ident)) := by
  have hsplit : splitOnceStr "beta.".toList (x ++ ("beta.".toList ++ i)) = some (x, i) :=
    splitOnceStr_append (p := "beta".toList) i (by decide) hbeta
  rw [parsePre, (splitOnceStr_eq_none (by decide)).2 halpha, hsplit]
  exact okOr_bind_eq_ok.2 ⟨ident, parseU8_eq_some.2 (.inl hi), rfl⟩

/-- A beta of the grammar has no `alpha.` in it: the number behind it is digits only. -/
theorem beta_not_alpha {i : List Char} {ident : UInt8} (hi : IsNumber i ident) :
    ¬ "alpha.".toList <:+: "beta.".toList ++ i := by
  intro hin
  have hmem : 'h' ∈ "beta.".toList ++ i := hin.subset (by decide)
  exact (List.mem_append.1 hmem).elim (by decide) (hi.not_mem (by decide))

theorem PreText.parsePre_eq {pre : List Char} {o : Option PreRelease} (h : PreText pre o) : parsePre pre.tail = .ok o := by
  cases h with
  | absent => rfl
  | alpha hi => exact parsePre_alpha (x := []) (by decide) hi
  | beta hi => exact parsePre_beta (x := []) (beta_not_alpha hi) (by decide) hi

theorem LoosePre.parsePre_eq {pre : List Char} {o : Option PreRelease} (h : LoosePre pre o) : parsePre pre.tail = .ok o := by
  cases h with
  | unknown halpha hbeta =>
    rw [List.tail_cons, parsePre, (splitOnceStr_eq_none (by decide)).2 halpha, (splitOnceStr_eq_none (by decide)).2 hbeta]
    rfl
  | alpha hx halpha hi => exact parsePre_alpha halpha hi
  | beta hx halpha hbeta hi => exact parsePre_beta halpha hbeta hi

/-- No sign can stand in front of the number of a pre-release: the plus sign would have begun the build text. -/
theorem isNumber_behind {x w i : List Char} {ident : UInt8} (hplus : '+' ∉ '-' :: (x ++ (w ++ i)))
    (h : parseU8 i = some ident) : IsNumber i ident :=
  (parseU8_eq_some.1 h).isNumber (fun hmem => hplus (by simp [hmem]))

theorem preText_or_loosePre {pre : List Char} {o : Option PreRelease} (hpre : Begins '-' pre) (hplus : '+' ∉ pre)
    (h : parsePre pre.tail = .ok o) : PreText pre o ∨ LoosePre pre o := by
  rcases hpre with rfl | ⟨t, rfl⟩
  · obtain rfl : none = o := Except.ok.inj h
    exact .inl .absent
  · rw [List.tail_cons, parsePre] at h
    cases halpha : splitOnceStr "alpha.".toList t with
    | some lr =>
      obtain ⟨rfl, hx⟩ := of_splitOnceStr (by decide) halpha
      rw [halpha] at h
      obtain ⟨ident, hident, h⟩ := okOr_bind_eq_ok.1 h
      obtain rfl : some (.alpha ident) = o := Except.ok.inj h
      have hi : IsNumber lr.2 ident := isNumber_behind hplus hident
      rcases eq_or_ne lr.1 [] with hnil | hne
      · rw [hnil]
        exact .inl (.alpha hi)
      · exact .inr (.alpha hne hx hi)
    | none =>
      have hnoalpha := (splitOnceStr_eq_none (by decide)).1 halpha
      rw [halpha] at h
      cases hbeta : splitOnceStr "beta.".toList t with
      | some lr =>
        obtain ⟨rfl, hx⟩ := of_splitOnceStr (by decide) hbeta
        rw [hbeta] at h
        obtain ⟨ident, hident, h⟩ := okOr_bind_eq_ok.1 h
        obtain rfl : some (.beta ident) = o := Except.ok.inj h
        have hi : IsNumber lr.2 ident := isNumber_behind hplus hident
        rcases eq_or_ne lr.1 [] with hnil | hne
        · rw [hnil]
          exact .inl (.beta hi)
        · exact .inr (.beta hne hnoalpha hx hi)
      | none =>
        rw [hbeta] at h
        obtain rfl : none = o := Except.ok.inj h
        exact .inr (.unknown hnoalpha ((splitOnceStr_eq_none (by decide)).1 hbeta))

theorem PreText.not_loosePre {pre : List Char} {o : Option PreRelease} (h : PreText pre o) : ¬ LoosePre pre o := by
  intro hloose
  cases h with
  | absent => cases hloose
  | @alpha i ident hi =>
    generalize hpre : '-' :: ("alpha.".toList ++ i) = pre at hloose
    generalize ho : some (PreRelease.alpha ident) = o at hloose
    cases hloose with
    | unknown => cases ho
    | alpha hx halpha =>
      exact hx (cutStr_unique (p := "alpha".toList) (l := []) (by decide) (List.cons.inj hpre).2 (by decide) halpha).1.symm
    | beta => cases ho
  | @beta i ident hi =>
    generalize hpre : '-' :: ("beta.".toList ++ i) = pre at hloose
    generalize ho : some (PreRelease.beta ident) = o at hloose
    cases hloose with
    | unknown => cases ho
    | alpha => cases ho
    | beta hx halpha hbeta =>
      exact hx (cutStr_unique (p := "beta".toList) (l := []) (by decide) (List.cons.inj hpre).2 (by decide) hbeta).1.symm

theorem PreText.not_mem_plus {pre : List Char} {o : Option PreRelease} (h : PreText pre o) : '+' ∉ pre := by
  have hnum : ∀ {w i : List Char} {ident : UInt8}, '+' ∉ w → IsNumber i ident → '+' ∉ '-' :: (w ++ i) := by
    intro w i ident hw hi hmem
    rcases List.mem_cons.1 hmem with heq | hmem
    · exact absurd heq (by decide)
    · exact (List.mem_append.1 hmem).elim hw (hi.not_mem (by decide))
  cases h with
  | absent => exact List.not_mem_nil
  | alpha hi => exact hnum (by decide) hi
  | beta hi => exact hnum (by decide) hi

theorem PreText.begins {pre : List Char} {o : Option PreRelease} (h : PreText pre o) : Begins '-' pre := by
  cases h with
  | absent => exact .inl rfl
  | alpha => exact .inr ⟨_, rfl⟩
  | beta => exact .inr ⟨_, rfl⟩

theorem LoosePre.begins {pre : List Char} {o : Option PreRelease} (h : LoosePre pre o) : Begins '-' pre := by
  cases h <;> exact .inr ⟨_, rfl⟩

/-- The texts that are read: those of the grammar, and those with a sign in front of the first two numbers or with a loose
pre-release. -/
structure Reads (q : Parts) (v : Version) : Prop where
  major : Numeral q.major v.major
  minor : Numeral q.minor v.minor
  patch : IsNumber q.patch v.patch
  pre : PreText q.pre v.pre ∨ LoosePre q.pre v.pre
  plus : '+' ∉ q.pre
  build : Begins '+' q.build

theorem Reads.cut {q : Parts} {v : Version} (h : Reads q v) : q.Cut where
  major := h.major.not_mem (by decide) (by decide)
  minor := h.minor.not_mem (by decide) (by decide)
  patch := h.patch.not_mem (by decide)
  pre := h.pre.elim PreText.begins LoosePre.begins
  plus := fun hmem => (List.mem_append.1 hmem).elim (h.patch.not_mem (by decide)) h.plus
  build := h.build

theorem fromStr_eq_ok {s : List Char} {v : Version} :
    Version.fromStr s = .ok v ↔ ∃ q : Parts, s = q.text ∧ Reads q v := by
  constructor
  · intro h
    obtain ⟨q, hq, rfl⟩ := exists_cut h
    obtain ⟨hmajor, hminor, hpatch, hpre⟩ := (fromStr_text hq v).1 h
    have hplus : '+' ∉ q.pre := fun hmem => hq.plus (List.mem_append_right _ hmem)
    exact ⟨q, rfl, hmajor, hminor, hpatch.isNumber (fun hmem => hq.plus (List.mem_append_left _ hmem)),
      preText_or_loosePre hq.pre hplus hpre, hplus, hq.build⟩
  · rintro ⟨q, rfl, h⟩
    exact (fromStr_text h.cut v).2 ⟨h.major, h.minor, .inl h.patch, h.pre.elim PreText.parsePre_eq LoosePre.parsePre_eq⟩

/-- The texts that are read though the grammar does not have them: a plus sign stands in front of the major or the minor
number, or the pre-release is a loose one. -/
def Mistaken (s : List Char) : Prop :=
  ∃ (q : Parts) (v : Version), s = q.text ∧ Reads q v ∧ ('+' ∈ q.major ∨ '+' ∈ q.minor ∨ LoosePre q.pre v.pre)

/-- Every version of the grammar is read for what it is. -/
theorem fromStr_of_grammar {s : List Char} {v : Version} (h : Grammar s v) : Version.fromStr s = .ok v := by
  obtain ⟨q, rfl, hmajor, hminor, hpatch, hpre, hbuild⟩ := h
  exact fromStr_eq_ok.2 ⟨q, rfl, .inl hmajor, .inl hminor, hpatch, .inl hpre, hpre.not_mem_plus, hbuild⟩

theorem Mistaken.not_grammar {s : List Char} (h : Mistaken s) : ∃ v, Version.fromStr s = .ok v ∧ ¬ Grammar s v := by
  obtain ⟨q, v, rfl, hreads, hwrong⟩ := h
  refine ⟨v, fromStr_eq_ok.2 ⟨q, rfl, hreads⟩, ?_⟩
  rintro ⟨q', htext, hmajor, hminor, hpatch, hpre, hbuild⟩
  have hreads' : Reads q' v := ⟨.inl hmajor, .inl hminor, hpatch, .inl hpre, hpre.not_mem_plus, hbuild⟩
  obtain rfl := hreads.cut.unique hreads'.cut htext
  rcases hwrong with hplus | hplus | hloose
  · exact hmajor.not_mem (by decide) hplus
  · exact hminor.not_mem (by decide) hplus
  · exact hpre.not_loosePre hloose

theorem grammar_of_fromStr {s : List Char} {v : Version} (hs : ¬ Mistaken s) (h : Version.fromStr s = .ok v) :
    Grammar s v := by
  obtain ⟨q, rfl, hreads⟩ := fromStr_eq_ok.1 h
  have hright : ¬ ('+' ∈ q.major ∨ '+' ∈ q.minor ∨ LoosePre q.pre v.pre) := fun hwrong => hs ⟨q, v, rfl, hreads, hwrong⟩
  push Not at hright
  exact ⟨q, rfl, hreads.major.isNumber hright.1, hreads.minor.isNumber hright.2.1, hreads.patch,
    hreads.pre.resolve_right hright.2.2, hreads.build⟩

/-- **A text is read exactly as the grammar says, unless it is one of the mistaken ones.** -/
theorem fromStr_exact_iff (s : List Char) : (∀ v, Version.fromStr s = .ok v ↔ Grammar s v) ↔ ¬ Mistaken s := by
  constructor
  · intro hexact hmistaken
    obtain ⟨v, hv, hnot⟩ := hmistaken.not_grammar
    exact hnot ((hexact v).1 hv)
  · intro hs v
    exact ⟨grammar_of_fromStr hs, fromStr_of_grammar⟩

/-- A release candidate is read as the release. -/
theorem fromStr_release_candidate : Version.fromStr "1.2.3-rc.1".toList = .ok ⟨1, 2, 3, none⟩
    ∧ ¬ Grammar "1.2.3-rc.1".toList ⟨1, 2, 3, none⟩ := by
  have hread : Version.fromStr "1.2.3-rc.1".toList = .ok ⟨1, 2, 3, none⟩ := by decide
  have hloose : LoosePre "-rc.1".toList none := .unknown (t := "rc.1".toList) (by decide) (by decide)
  have hreads : Reads ⟨['1'], ['2'], ['3'], "-rc.1".toList, []⟩ ⟨1, 2, 3, none⟩ :=
    ⟨.inl (isNumber_fmtU8 1), .inl (isNumber_fmtU8 2), isNumber_fmtU8 3, .inr hloose, by decide, .inl rfl⟩
  have hmistaken : Mistaken "1.2.3-rc.1".toList :=
    ⟨_, _, by decide, hreads, .inr (.inr hloose)⟩
  obtain ⟨v, hv, hnot⟩ := hmistaken.not_grammar
  obtain rfl : _ = v := Except.ok.inj (hread.symm.trans hv)
  exact ⟨hread, hnot⟩

/-! ## Displayed versions -/

theorem grammar_fmt (v : Version) {build : List Char} (hbuild : Begins '+' build) : Grammar (v.fmt ++ build) v := by
  obtain ⟨major, minor, patch, pre⟩ := v
  cases pre with
  | none =>
    exact ⟨⟨fmtU8 major, fmtU8 minor, fmtU8 patch, [], build⟩, by simp [Version.fmt, Parts.text],
      isNumber_fmtU8 major, isNumber_fmtU8 minor, isNumber_fmtU8 patch, .absent, hbuild⟩
  | some pre =>
    cases pre with
    | alpha ident =>
      exact ⟨⟨fmtU8 major, fmtU8 minor, fmtU8 patch, '-' :: ("alpha.".toList ++ fmtU8 ident), build⟩,
        by simp [Version.fmt, Parts.text], isNumber_fmtU8 major, isNumber_fmtU8 minor, isNumber_fmtU8 patch,
        .alpha (isNumber_fmtU8 ident), hbuild⟩
    | beta ident =>
      exact ⟨⟨fmtU8 major, fmtU8 minor, fmtU8 patch, '-' :: ("beta.".toList ++ fmtU8 ident), build⟩,
        by simp [Version.fmt, Parts.text], isNumber_fmtU8 major, isNumber_fmtU8 minor, isNumber_fmtU8 patch,
        .beta (isNumber_fmtU8 ident), hbuild⟩

/-- **A displayed version is read back, whatever the build text behind it.** -/
theorem fromStr_fmt (v : Version) (b : List Char) :
    Version.fromStr v.fmt = .ok v ∧ Version.fromStr (v.fmt ++ '+' :: b) = .ok v := by
  have hfmt := fromStr_of_grammar (grammar_fmt v (.inl rfl))
  rw [List.append_nil] at hfmt
  exact ⟨hfmt, fromStr_of_grammar (grammar_fmt v (.inr ⟨b, rfl⟩))⟩

end SoftwareUpdate
end FlipFlop
