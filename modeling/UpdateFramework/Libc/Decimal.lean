import Mathlib.Data.List.TakeWhile
import Mathlib.Data.Nat.Digits.Lemmas
import UpdateFramework.Libc.Text

/-!
# Libc — decimal numerals

A `Numeral` is a text of decimal digits, and at least one.  Its value is that of its digits in base
ten (`digitsValue_eq_ofDigits`); leading zeros do not count.  `decimal n` is a numeral of value `n`,
and reading a numeral back gives its value (`strtoull_numeral`).
-/

namespace Libc

/-- Decimal digits only, and at least one. -/
structure Numeral (ds : Bytes) : Prop where
  nonempty : ds ≠ []
  digits : ∀ d ∈ ds, isdigit d = true

instance (ds : Bytes) : Decidable (Numeral ds) :=
  decidable_of_iff (ds.isEmpty = false ∧ ds.all isdigit = true)
    ⟨fun h => ⟨List.isEmpty_eq_false_iff.mp h.1, List.all_eq_true.mp h.2⟩,
      fun h => ⟨List.isEmpty_eq_false_iff.mpr h.1, List.all_eq_true.mpr h.2⟩⟩

theorem Numeral.not_mem {ds : Bytes} (h : Numeral ds) {b : UInt8} (hb : isdigit b = false) :
    b ∉ ds :=
  fun hm => absurd (h.digits b hm) (by rw [hb]; exact Bool.false_ne_true)

theorem Numeral.zero_not_mem {ds : Bytes} (h : Numeral ds) : 0 ∉ ds := h.not_mem rfl

/-- No digit comes next. -/
def NoDigitNext (s : Bytes) : Prop := ∀ d ∈ s.head?, isdigit d = false

theorem isdigit_iff {d : UInt8} : isdigit d = true ↔ 48 ≤ d.toNat ∧ d.toNat ≤ 57 := by
  rw [isdigit, Bool.and_eq_true, decide_eq_true_iff, decide_eq_true_iff, UInt8.le_iff_toNat_le,
    UInt8.le_iff_toNat_le]
  exact Iff.rfl

/-! ### Values -/

/-- The value of a string of digits is that of its digits in base ten, the last one first. -/
theorem digitsValue_eq_ofDigits (ds : Bytes) :
    digitsValue ds = Nat.ofDigits 10 (ds.reverse.map fun d => d.toNat - 48) := by
  induction ds using List.reverseRecOn with
  | nil => rfl
  | append_singleton ds d ih =>
      rw [digitsValue, List.foldl_append, List.reverse_append, List.reverse_singleton,
        List.singleton_append, List.map_cons, Nat.ofDigits_cons, ← ih, Nat.add_comm, Nat.mul_comm]
      rfl

theorem isdigit_ofNat {d : ℕ} (h : d < 10) : isdigit (UInt8.ofNat (d + 48)) = true := by
  interval_cases d <;> rfl

theorem toNat_digit {d : ℕ} (h : d < 10) : (UInt8.ofNat (d + 48)).toNat - 48 = d := by
  interval_cases d <;> rfl

theorem decimal_numeral (n : ℕ) : Numeral (decimal n) := by
  by_cases hn : n = 0
  · rw [decimal, if_pos hn]
    refine ⟨List.cons_ne_nil _ _, fun d hd => ?_⟩
    rw [List.mem_singleton.mp hd]
    rfl
  · rw [decimal, if_neg hn]
    refine ⟨fun h => ?_, fun d hd => ?_⟩
    · rw [List.map_eq_nil_iff, List.reverse_eq_nil_iff, Nat.digits_eq_nil_iff_eq_zero] at h
      exact hn h
    · obtain ⟨k, hk, rfl⟩ := List.mem_map.mp hd
      exact isdigit_ofNat (Nat.digits_lt_base (by decide) (List.mem_reverse.mp hk))

/-- A printed number has its value. -/
@[simp] theorem digitsValue_decimal (n : ℕ) : digitsValue (decimal n) = n := by
  by_cases hn : n = 0
  · subst hn
    rfl
  · have hdigits : (decimal n).reverse.map (fun d => d.toNat - 48) = Nat.digits 10 n := by
      rw [decimal, if_neg hn, ← List.map_reverse, List.reverse_reverse, List.map_map]
      refine (List.map_congr_left fun d hd => ?_).trans (List.map_id _)
      exact toNat_digit (Nat.digits_lt_base (by decide) hd)
    rw [digitsValue_eq_ofDigits, hdigits, Nat.ofDigits_digits]

theorem length_decimal_le {n k : ℕ} (hk : 0 < k) (hn : n < 10 ^ k) : (decimal n).length ≤ k := by
  by_cases h : n = 0
  · subst h
    exact hk
  · rw [decimal, if_neg h, List.length_map, List.length_reverse]
    exact (Nat.digits_length_le_iff (by decide) n).mpr hn

/-- A `uint64_t` has at most twenty digits. -/
theorem length_decimal_u64 {n : ℕ} (hn : n < 2 ^ 64) : (decimal n).length ≤ 20 :=
  length_decimal_le (by decide) (hn.trans (by decide))

/-- The digits without the zeros they begin with. -/
def significant (ds : Bytes) : Bytes := ds.dropWhile (· = 48)

/-- Leading zeros do not count. -/
theorem digitsValue_zeros (k : ℕ) (ds : Bytes) :
    digitsValue (List.replicate k 48 ++ ds) = digitsValue ds := by
  induction k with
  | zero => rfl
  | succ k ih =>
      rw [List.replicate_succ, List.cons_append]
      exact ih

theorem digitsValue_significant (ds : Bytes) : digitsValue (significant ds) = digitsValue ds := by
  induction ds with
  | nil => rfl
  | cons d ds ih =>
      by_cases hd : d = 48
      · subst hd
        have hstep : significant (48 :: ds) = significant ds := rfl
        rw [hstep]
        exact ih
      · rw [significant, List.dropWhile_cons_of_neg (by simpa using hd)]

theorem head_significant (ds : Bytes) : (significant ds).head? ≠ some 48 := by
  intro h
  have hne := List.head?_dropWhile_not (· = 48) ds
  rw [show ds.dropWhile (fun d => decide (d = 48)) = significant ds from rfl, h] at hne
  simp at hne

/-- Digits that do not begin with a zero are the decimal form of their value. -/
theorem decimal_digitsValue {ds : Bytes} (h : Numeral ds) (hzero : ds.head? ≠ some 48) :
    decimal (digitsValue ds) = ds := by
  have hdigits : Nat.digits 10 (digitsValue ds) = ds.reverse.map fun d => d.toNat - 48 := by
    rw [digitsValue_eq_ofDigits]
    refine Nat.digits_ofDigits 10 (by decide) _ (fun k hk => ?_) fun hne => ?_
    · obtain ⟨d, hd, rfl⟩ := List.mem_map.mp hk
      have hdigit := isdigit_iff.mp (h.digits d (List.mem_reverse.mp hd))
      omega
    · rw [List.getLast_map, List.getLast_reverse]
      have hhead := List.head?_eq_some_head h.nonempty
      have hdigit := isdigit_iff.mp (h.digits _ (List.head_mem h.nonempty))
      have h48 : ds.head h.nonempty ≠ 48 := fun heq => hzero (heq ▸ hhead)
      have hne48 : (ds.head h.nonempty).toNat ≠ 48 := fun heq => h48 (UInt8.toNat.inj heq)
      omega
  have hback : (ds.reverse.map fun d => d.toNat - 48).reverse.map (fun d => UInt8.ofNat (d + 48)) =
      ds := by
    rw [← List.map_reverse, List.reverse_reverse, List.map_map]
    refine (List.map_congr_left fun d hd => ?_).trans (List.map_id _)
    have hdigit := isdigit_iff.mp (h.digits d hd)
    rw [Function.comp_apply, Nat.sub_add_cancel hdigit.1, UInt8.ofNat_toNat]
    rfl
  have hpos : digitsValue ds ≠ 0 := by
    intro hz
    rw [hz, Nat.digits_zero] at hdigits
    exact h.nonempty (List.reverse_eq_nil_iff.mp (List.map_eq_nil_iff.mp hdigits.symm))
  rw [decimal, if_neg hpos, hdigits, hback]

/-- The significant digits of a numeral are the decimal form of its value, unless that is zero. -/
theorem significant_eq_decimal {ds : Bytes} (h : ∀ d ∈ ds, isdigit d = true)
    (hne : significant ds ≠ []) : significant ds = decimal (digitsValue ds) := by
  have hsig : Numeral (significant ds) :=
    ⟨hne, fun d hd => h d ((List.dropWhile_suffix _).subset hd)⟩
  rw [← digitsValue_significant ds]
  exact (decimal_digitsValue hsig (head_significant ds)).symm

theorem significant_eq_nil {ds : Bytes} (h : ∀ d ∈ ds, isdigit d = true) :
    significant ds = [] ↔ digitsValue ds = 0 := by
  constructor
  · intro hnil
    rw [← digitsValue_significant, hnil]
    rfl
  · intro hzero
    by_contra hne
    have hsig := significant_eq_decimal h hne
    rw [hzero] at hsig
    exact head_significant ds (hsig ▸ rfl)

/-! ### Reading -/

theorem Numeral.takeWhile {ds s : Bytes} (h : Numeral ds) (hs : NoDigitNext s) :
    (ds ++ s).takeWhile isdigit = ds ∧ (ds ++ s).dropWhile isdigit = s := by
  rw [List.takeWhile_append_of_pos h.digits, List.dropWhile_append_of_pos h.digits]
  cases s with
  | nil => exact ⟨List.append_nil ds, rfl⟩
  | cons b s =>
      have hb : ¬ isdigit b = true := by rw [hs b rfl]; exact Bool.false_ne_true
      rw [List.takeWhile_cons_of_neg hb, List.dropWhile_cons_of_neg hb]
      exact ⟨List.append_nil ds, rfl⟩

theorem noDigitNext_nil : NoDigitNext [] := nofun

theorem noDigitNext_dropWhile (s : Bytes) : NoDigitNext (s.dropWhile isdigit) := by
  intro d hd
  exact Bool.eq_false_iff.mpr fun h => by
    have hne := List.head?_dropWhile_not isdigit s
    rw [Option.mem_def.mp hd] at hne
    exact absurd h (by simpa using hne)

/-- The digits a text begins with are a numeral, if it begins with any. -/
theorem numeral_takeWhile {s : Bytes} (h : s.takeWhile isdigit ≠ []) :
    Numeral (s.takeWhile isdigit) :=
  ⟨h, fun _ hd => List.mem_takeWhile_imp hd⟩

theorem Numeral.head {ds : Bytes} (h : Numeral ds) : ∃ d, ds.head? = some d ∧ isdigit d = true := by
  cases ds with
  | nil => exact absurd rfl h.nonempty
  | cons d ds => exact ⟨d, rfl, h.digits d List.mem_cons_self⟩

theorem not_isspace_of_isdigit {d : UInt8} (h : isdigit d = true) : isspace d = false := by
  obtain ⟨h₁, h₂⟩ := isdigit_iff.mp h
  rw [isspace, Bool.or_eq_false_iff, Bool.and_eq_false_iff]
  refine ⟨beq_eq_false_iff_ne.mpr fun hd => ?_, .inr (decide_eq_false fun hd => ?_)⟩
  · subst hd
    exact absurd h₁ (by decide)
  · have : d.toNat ≤ 13 := UInt8.le_iff_toNat_le.mp hd
    omega

/-- What `strtoull` makes of digits behind a sign. -/
def signedValue (sign ds : Bytes) : ℕ :=
  if 2 ^ 64 ≤ digitsValue ds then 2 ^ 64 - 1
  else if sign = [45] then (2 ^ 64 - digitsValue ds) % 2 ^ 64
  else digitsValue ds

/-- Blanks, then one sign or none. -/
structure Lead (blanks sign : Bytes) : Prop where
  blanks : ∀ b ∈ blanks, isspace b = true
  sign : sign = [] ∨ sign = [43] ∨ sign = [45]

/-- `strtoull` once the blanks and the sign are skipped. -/
def readDigits (s sign u : Bytes) : ℕ × Bytes :=
  if u.takeWhile isdigit = [] then (0, s)
  else (signedValue sign (u.takeWhile isdigit), u.dropWhile isdigit)

theorem readDigits_numeral (s sign : Bytes) {ds u : Bytes} (h : Numeral ds) (hu : NoDigitNext u) :
    readDigits s sign (ds ++ u) = (signedValue sign ds, u) := by
  obtain ⟨htake, hdrop⟩ := h.takeWhile hu
  rw [readDigits, htake, hdrop, if_neg h.nonempty]

theorem strtoull_minus {s u : Bytes} (h : s.dropWhile isspace = 45 :: u) :
    strtoull s = readDigits s [45] u := by
  simp only [strtoull, readDigits, signedValue, h, List.head?_cons, true_or, if_true,
    List.tail_cons]
  split
  · rfl
  · split <;> rfl

theorem strtoull_plus {s u : Bytes} (h : s.dropWhile isspace = 43 :: u) :
    strtoull s = readDigits s [43] u := by
  have hne : ¬ (some (43 : UInt8) = some 45) := by decide
  have hne' : ¬ ([43] : Bytes) = [45] := by decide
  simp only [strtoull, readDigits, signedValue, h, List.head?_cons, or_true, if_true,
    List.tail_cons, hne, hne', if_false]
  split
  · rfl
  · split <;> rfl

theorem strtoull_unsigned {s : Bytes} (h₄₅ : (s.dropWhile isspace).head? ≠ some 45)
    (h₄₃ : (s.dropWhile isspace).head? ≠ some 43) :
    strtoull s = readDigits s [] (s.dropWhile isspace) := by
  have hne : ¬ ([] : Bytes) = [45] := by decide
  simp only [strtoull, readDigits, signedValue, h₄₅, h₄₃, or_self, if_false, hne]
  split
  · rfl
  · split <;> rfl

/-- `strtoull` reads digits behind blanks and a sign. -/
theorem strtoull_signed {blanks sign ds s : Bytes} (hl : Lead blanks sign) (h : Numeral ds)
    (hs : NoDigitNext s) :
    strtoull (blanks ++ (sign ++ (ds ++ s))) = (signedValue sign ds, s) := by
  obtain ⟨hblanks, rfl | rfl | rfl⟩ := hl
  · obtain ⟨d, hd, hdigit⟩ := h.head
    have hdrop : (blanks ++ (ds ++ s)).dropWhile isspace = ds ++ s := by
      rw [List.dropWhile_append_of_pos hblanks]
      cases ds with
      | nil => cases hd
      | cons b ds =>
          obtain rfl : b = d := Option.some.inj hd
          exact List.dropWhile_cons_of_neg (by rw [not_isspace_of_isdigit hdigit]; decide)
    have hplain : ∀ b : UInt8, isdigit b = false → (ds ++ s).head? ≠ some b := by
      intro b hb he
      rw [List.head?_append, hd] at he
      cases he
      rw [hb] at hdigit
      cases hdigit
    rw [List.nil_append, strtoull_unsigned (by rw [hdrop]; exact hplain 45 rfl)
      (by rw [hdrop]; exact hplain 43 rfl), hdrop]
    exact readDigits_numeral _ _ h hs
  · rw [List.singleton_append, strtoull_plus (List.dropWhile_append_of_pos hblanks)]
    exact readDigits_numeral _ _ h hs
  · rw [List.singleton_append, strtoull_minus (List.dropWhile_append_of_pos hblanks)]
    exact readDigits_numeral _ _ h hs

/-- `strtoull` reads a numeral, up to `ULLONG_MAX`. -/
theorem strtoull_numeral {ds s : Bytes} (h : Numeral ds) (hs : NoDigitNext s) :
    strtoull (ds ++ s) = (min (digitsValue ds) (2 ^ 64 - 1), s) := by
  have hlead : Lead [] [] := ⟨nofun, .inl rfl⟩
  have hread := strtoull_signed hlead h hs
  rw [List.nil_append, List.nil_append] at hread
  rw [hread, signedValue]
  split
  · next hbig => rw [Nat.min_eq_right (by omega)]
  · next hsmall => rw [if_neg (by decide), Nat.min_eq_left (by omega)]

/-- Blanks or a sign are no digits. -/
theorem Lead.not_numeral {blanks sign ds : Bytes} (hl : Lead blanks sign)
    (hne : blanks ++ sign ≠ []) : ¬ Numeral (blanks ++ (sign ++ ds)) := by
  intro hnum
  obtain ⟨b, hb⟩ := List.exists_mem_of_ne_nil _ hne
  have hdigit : isdigit b = true := by
    refine hnum.digits b ?_
    rw [← List.append_assoc]
    exact List.mem_append_left ds hb
  rcases List.mem_append.mp hb with hb | hb
  · have hspace := hl.blanks b hb
    rw [not_isspace_of_isdigit hdigit] at hspace
    cases hspace
  · rcases hl.sign with rfl | rfl | rfl
    · cases hb
    · cases List.mem_singleton.mp hb
      cases hdigit
    · cases List.mem_singleton.mp hb
      cases hdigit

theorem Numeral.read {ds : Bytes} (h : Numeral ds) :
    strtoull ds = (min (digitsValue ds) (2 ^ 64 - 1), []) := by
  have hread := strtoull_numeral h noDigitNext_nil
  rwa [List.append_nil] at hread

/-- Digits to the end of the text. -/
theorem readDigits_whole {s sign u : Bytes} {n : ℕ} (h : readDigits s sign u = (n, [])) :
    (s = [] ∧ n = 0) ∨ Numeral u ∧ n = signedValue sign u := by
  rw [readDigits] at h
  split at h
  · obtain ⟨rfl, rfl⟩ := Prod.mk.inj h
    exact .inl ⟨rfl, rfl⟩
  next hne =>
  obtain ⟨rfl, hrest⟩ := Prod.mk.inj h
  have hall : u.takeWhile isdigit = u := by
    conv_rhs => rw [← List.takeWhile_append_dropWhile (p := isdigit) (l := u), hrest,
      List.append_nil]
  exact .inr ⟨hall ▸ numeral_takeWhile hne, by rw [hall]⟩

/-- `strtoull` reads all of a text if it is empty, or has digits to its end behind blanks and a
sign. -/
theorem strtoull_whole_iff {s : Bytes} {n : ℕ} : strtoull s = (n, []) ↔ (s = [] ∧ n = 0) ∨
    ∃ blanks sign ds, s = blanks ++ (sign ++ ds) ∧ Lead blanks sign ∧ Numeral ds ∧
      n = signedValue sign ds := by
  constructor
  · intro h
    have hsplit : s = s.takeWhile isspace ++ s.dropWhile isspace :=
      List.takeWhile_append_dropWhile.symm
    have hblanks : ∀ b ∈ s.takeWhile isspace, isspace b = true := fun _ hb =>
      List.mem_takeWhile_imp hb
    have signed : ∀ {sign u : Bytes}, s.dropWhile isspace = sign ++ u →
        (sign = [] ∨ sign = [43] ∨ sign = [45]) → readDigits s sign u = (n, []) →
        (s = [] ∧ n = 0) ∨ ∃ blanks sign ds, s = blanks ++ (sign ++ ds) ∧ Lead blanks sign ∧
          Numeral ds ∧ n = signedValue sign ds := fun hu hsign hread =>
      (readDigits_whole hread).imp id fun ⟨hnum, hn⟩ =>
        ⟨_, _, _, hu ▸ hsplit, ⟨hblanks, hsign⟩, hnum, hn⟩
    by_cases h₄₅ : (s.dropWhile isspace).head? = some 45
    · obtain ⟨u, hu⟩ := List.head?_eq_some_iff.mp h₄₅
      exact signed (List.singleton_append ▸ hu) (.inr (.inr rfl)) (strtoull_minus hu ▸ h)
    · by_cases h₄₃ : (s.dropWhile isspace).head? = some 43
      · obtain ⟨u, hu⟩ := List.head?_eq_some_iff.mp h₄₃
        exact signed (List.singleton_append ▸ hu) (.inr (.inl rfl)) (strtoull_plus hu ▸ h)
      · exact signed (List.nil_append _).symm (.inl rfl) (strtoull_unsigned h₄₅ h₄₃ ▸ h)
  · rintro (⟨rfl, rfl⟩ | ⟨blanks, sign, ds, rfl, hl, hds, rfl⟩)
    · rfl
    · have hread := strtoull_signed hl hds noDigitNext_nil
      rwa [List.append_nil] at hread

end Libc
