import Mathlib.Data.Prod.Lex
import UpdateFramework.Common.Version
import UpdateFramework.Libc.Decimal

/-!
# Common — what a version number is

`ver_parse` accepts exactly the texts `D+.D+.D+` whose numbers are at most 999999
(`verParse_iff`), and `ver_compare` is the sign of the lexicographic order of the numbers.  So the
valid texts are totally preordered, and texts of the same numbers are equivalent.
-/

namespace UpdateFramework

open Libc

/-! ### Parsing -/

/-- A number of a version, whatever its leading zeros. -/
structure Part (ds : Bytes) (n : ℕ) : Prop where
  numeral : Numeral ds
  bounded : n ≤ 999999
  value : n = digitsValue ds

/-- `text` is three numbers with dots between them, and nothing else. -/
def Denotes (text : Bytes) (v : Semver) : Prop :=
  ∃ a b c, text = a ++ 46 :: (b ++ 46 :: c) ∧ Part a v.major ∧ Part b v.minor ∧ Part c v.patch

theorem parsePart_iff {p q : Bytes} {n : ℕ} :
    parsePart p = some (n, q) ↔ ∃ ds, p = ds ++ q ∧ Part ds n ∧ NoDigitNext q := by
  constructor
  · intro h
    unfold parsePart at h
    dsimp only at h
    split at h
    · cases h
    next hne =>
    split at h
    · cases h
    next hle =>
    cases h
    refine ⟨p.takeWhile isdigit, List.takeWhile_append_dropWhile.symm, ⟨numeral_takeWhile hne,
      not_lt.mp hle, ?_⟩, noDigitNext_dropWhile p⟩
    rcases min_choice (digitsValue (p.takeWhile isdigit)) longMax with hmin | hmin
    · exact hmin
    · rw [hmin] at hle
      exact absurd (by decide) hle
  · rintro ⟨ds, rfl, ⟨hds, hn, rfl⟩, hq⟩
    obtain ⟨htake, hdrop⟩ := hds.takeWhile hq
    have hmin : min (digitsValue ds) longMax = digitsValue ds :=
      Nat.min_eq_left (hn.trans (by decide))
    unfold parsePart
    simp only [htake, hdrop, if_neg hds.nonempty, hmin, if_neg (not_lt.mpr hn)]

theorem skipDot_iff {p q : Bytes} : skipDot p = some q ↔ p = 46 :: q := by
  constructor
  · intro h
    unfold skipDot at h
    split at h
    · cases h
      rfl
    · cases h
  · rintro rfl
    rfl

theorem noDigitNext_dot (q : Bytes) : NoDigitNext (46 :: q) := by
  intro d hd
  cases hd
  rfl

/-- `ver_parse` accepts the versions, with their numbers. -/
theorem verParse_iff {text : Bytes} {v : Semver} : verParse text = some v ↔ Denotes text v := by
  simp only [verParse, Option.bind_eq_bind, Option.bind_eq_some_iff, Prod.exists, parsePart_iff,
    skipDot_iff]
  constructor
  · rintro ⟨major, _, ⟨a, rfl, ha, -⟩, _, rfl, minor, _, ⟨b, rfl, hb, -⟩, _, rfl, patch, q,
      ⟨c, rfl, hc, -⟩, hend⟩
    split at hend
    next hq =>
      cases hend
      exact ⟨a, b, c, by rw [hq, List.append_nil], ha, hb, hc⟩
    next => cases hend
  · rintro ⟨a, b, c, rfl, ha, hb, hc⟩
    exact ⟨v.major, _, ⟨a, rfl, ha, noDigitNext_dot _⟩, _, rfl, v.minor, _,
      ⟨b, rfl, hb, noDigitNext_dot _⟩, _, rfl, v.patch, [],
      ⟨c, (List.append_nil c).symm, hc, noDigitNext_nil⟩, rfl⟩

/-- A valid version has nothing but digits and dots. -/
theorem Denotes.not_mem {text : Bytes} {v : Semver} (h : Denotes text v) {b : UInt8}
    (hb : isdigit b = false) (hdot : b ≠ 46) : b ∉ text := by
  obtain ⟨a, m, p, rfl, ha, hm, hp⟩ := h
  simp [ha.numeral.not_mem hb, hm.numeral.not_mem hb, hp.numeral.not_mem hb, hdot]

/-! ### Comparing -/

/-- The numbers in the order they are compared in. -/
def Semver.key (v : Semver) : ℕ ×ₗ ℕ ×ₗ ℕ := toLex (v.major, toLex (v.minor, v.patch))

theorem Semver.key_injective : Function.Injective Semver.key := by
  rintro ⟨a, b, c⟩ ⟨a', b', c'⟩ h
  obtain ⟨ha, h⟩ := Prod.mk.inj (toLex.injective h)
  obtain ⟨hb, hc⟩ := Prod.mk.inj (toLex.injective h)
  cases ha
  cases hb
  cases hc
  rfl

/-- The sign of `a - b`, in any order. -/
def orderSign {α : Type} [LinearOrder α] (a b : α) : ℤ := if a < b then -1 else if b < a then 1 else 0

theorem orderSign_le {α : Type} [LinearOrder α] {a b : α} : orderSign a b ≤ 0 ↔ a ≤ b := by
  rcases lt_trichotomy a b with h | rfl | h
  · simp [orderSign, h, h.le]
  · simp [orderSign]
  · simp [orderSign, h, h.not_gt]

theorem verCompare_eq (a b : Semver) : verCompare a b = orderSign a.key b.key := by
  obtain ⟨a₁, a₂, a₃⟩ := a
  obtain ⟨b₁, b₂, b₃⟩ := b
  simp only [verCompare, orderSign, Semver.key, Prod.Lex.toLex_lt_toLex]
  rcases lt_trichotomy a₁ b₁ with h | rfl | h
  · simp [h, h.ne, h.not_gt]
  · rcases lt_trichotomy a₂ b₂ with h | rfl | h
    · simp [h, h.ne, h.not_gt]
    · rcases lt_trichotomy a₃ b₃ with h | rfl | h
      · simp [h, h.ne, h.not_gt]
      · simp
      · simp [h, h.ne', h.not_gt]
    · simp [h, h.ne', h.not_gt]
  · simp [h, h.ne', h.not_gt]

theorem verCompareText_iff {a b : Bytes} {r : ℤ} : verCompareText a b = some r ↔
    ∃ va vb, Denotes a va ∧ Denotes b vb ∧ r = orderSign va.key vb.key := by
  simp only [verCompareText, Option.bind_eq_bind, Option.bind_eq_some_iff, verParse_iff,
    Option.some.injEq, verCompare_eq]
  constructor
  · rintro ⟨va, ha, vb, hb, rfl⟩
    exact ⟨va, vb, ha, hb, rfl⟩
  · rintro ⟨va, vb, ha, hb, rfl⟩
    exact ⟨va, ha, vb, hb, rfl⟩

/-! ### The order of valid versions -/

/-- A text `ver_is_valid` accepts. -/
abbrev ValidVersion := {text : Bytes // verIsValid text = true}

/-- The numbers of a valid version. -/
def ValidVersion.semver (a : ValidVersion) : Semver := (verParse a.1).get a.2

theorem ValidVersion.denotes (a : ValidVersion) : Denotes a.1 a.semver :=
  verParse_iff.1 (Option.some_get a.2).symm

theorem Denotes.semver_eq {a : ValidVersion} {v : Semver} (h : Denotes a.1 v) : a.semver = v :=
  Option.some.inj ((Option.some_get a.2).trans (verParse_iff.2 h))

/-- `ver_compare_text` finds `a` no newer than `b`. -/
def NotNewer (a b : ValidVersion) : Prop := ∃ r ≤ 0, verCompareText a.1 b.1 = some r

theorem notNewer_iff {a b : ValidVersion} : NotNewer a b ↔ a.semver.key ≤ b.semver.key := by
  constructor
  · rintro ⟨r, hr, h⟩
    obtain ⟨va, vb, ha, hb, rfl⟩ := verCompareText_iff.1 h
    rw [ha.semver_eq, hb.semver_eq]
    exact orderSign_le.1 hr
  · intro h
    exact ⟨_, orderSign_le.2 h, verCompareText_iff.2 ⟨_, _, a.denotes, b.denotes, rfl⟩⟩

/-- **Versions.**  A text is parsed if and only if it is three numbers of at most 999999 with dots
between them, and then to these numbers.  Two texts are compared if and only if both are parsed, and
then lexicographically by their numbers.  On the valid texts this is a total preorder, in which texts
are equivalent if and only if their numbers are equal. -/
theorem versions_exact :
    (∀ text v, verParse text = some v ↔ Denotes text v) ∧
    (∀ a b r, verCompareText a b = some r ↔
      ∃ va vb, Denotes a va ∧ Denotes b vb ∧ r = orderSign va.key vb.key) ∧
    (∀ a, NotNewer a a) ∧ (∀ a b c, NotNewer a b → NotNewer b c → NotNewer a c) ∧
    (∀ a b, NotNewer a b ∨ NotNewer b a) ∧
    ∀ a b : ValidVersion, (NotNewer a b ∧ NotNewer b a) ↔ a.semver = b.semver := by
  refine ⟨fun _ _ => verParse_iff, fun _ _ _ => verCompareText_iff, fun _ => ?_, fun _ _ _ => ?_,
    fun _ _ => ?_, fun a b => ?_⟩
  · exact notNewer_iff.2 le_rfl
  · rw [notNewer_iff, notNewer_iff, notNewer_iff]
    exact le_trans
  · rw [notNewer_iff, notNewer_iff]
    exact le_total _ _
  · rw [notNewer_iff, notNewer_iff, ← le_antisymm_iff]
    exact Semver.key_injective.eq_iff

end UpdateFramework
