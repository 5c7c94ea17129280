import Mathlib.Data.List.TakeWhile
import UpdateFramework.Libc.Text

/-!
# Libc — blanks

Where `cutLine` cuts a text and what `strip` leaves of it.  Blanks in front and behind do not
matter (`strip_blank_append`, `strip_append_blank`); everything else stays, and `ink` counts it.
-/

namespace Libc

/-- Nothing but blanks. -/
def Blank (s : Bytes) : Prop := ∀ b ∈ s, isspace b = true

instance (s : Bytes) : Decidable (Blank s) :=
  decidable_of_iff (s.all isspace = true) List.all_eq_true

/-- The number of bytes that are no blanks. -/
def ink (s : Bytes) : ℕ := s.countP fun b => !isspace b

theorem snprintf_of_lt {cap : ℕ} {s : Bytes} (h : s.length < cap) : snprintf cap s = s :=
  List.take_of_length_le (Nat.le_sub_one_of_lt h)

/-! ### The end of the line -/

theorem length_snprintf_lt {cap : ℕ} (hcap : 0 < cap) (s : Bytes) :
    (snprintf cap s).length < cap := by
  rw [snprintf, List.length_take]
  exact Nat.lt_of_le_of_lt (Nat.min_le_left ..) (Nat.sub_one_lt_of_lt hcap)

theorem cutLine_eq_self {s : Bytes} (h : 10 ∉ s ∧ 13 ∉ s) : cutLine s = s := by
  rw [cutLine, List.takeWhile_eq_self_iff]
  intro b hb
  simp only [Bool.and_eq_true, decide_eq_true_eq]
  exact ⟨ne_of_mem_of_not_mem hb h.2, ne_of_mem_of_not_mem hb h.1⟩

theorem cutLine_newline {s : Bytes} (h : 10 ∉ s ∧ 13 ∉ s) (t : Bytes) :
    cutLine (s ++ 10 :: t) = s := by
  have hs : ∀ b ∈ s, (b ≠ 13 && b ≠ 10 : Bool) = true := by
    intro b hb
    simp only [Bool.and_eq_true, decide_eq_true_eq]
    exact ⟨ne_of_mem_of_not_mem hb h.2, ne_of_mem_of_not_mem hb h.1⟩
  rw [cutLine, List.takeWhile_append_of_pos hs]
  simp [List.takeWhile]

/-- A text is cut at its first carriage return. -/
theorem cutLine_append_of_mem {s : Bytes} (h : 13 ∈ s) (t : Bytes) :
    cutLine (s ++ t) = cutLine s := by
  rw [cutLine, cutLine, List.takeWhile_append, if_neg]
  intro hlen
  have hall := List.takeWhile_eq_self_iff.mp
    ((List.takeWhile_prefix _).eq_of_length hlen) 13 h
  simp at hall

/-- Cutting at the end of the line leaves nothing of its newline. -/
theorem cutLine_append_newline (l : Bytes) : cutLine (l ++ [10]) = cutLine l := by
  induction l with
  | nil => rfl
  | cons b l ih =>
      by_cases hb : (b ≠ 13 && b ≠ 10) = true
      · have hcut : ∀ t, cutLine (b :: t) = b :: cutLine t := fun t =>
          List.takeWhile_cons_of_pos hb
        rw [List.cons_append, hcut, hcut, ih]
      · have hcut : ∀ t, cutLine (b :: t) = [] := fun t => List.takeWhile_cons_of_neg hb
        rw [List.cons_append, hcut, hcut]

/-- A text without a carriage return is not cut before its end. -/
theorem cutLine_append {s : Bytes} (h : 10 ∉ s ∧ 13 ∉ s) (t : Bytes) :
    cutLine (s ++ t) = s ++ cutLine t := by
  refine List.takeWhile_append_of_pos fun b hb => ?_
  rw [Bool.and_eq_true, decide_eq_true_eq, decide_eq_true_eq]
  exact ⟨ne_of_mem_of_not_mem hb h.2, ne_of_mem_of_not_mem hb h.1⟩

/-! ### Leading and trailing blanks -/

theorem dropWhile_dropWhile (s : Bytes) :
    (s.dropWhile isspace).dropWhile isspace = s.dropWhile isspace := by
  induction s with
  | nil => rfl
  | cons b s ih => by_cases hb : isspace b = true <;> simp [List.dropWhile, hb, ih]

theorem strip_isPrefix (s : Bytes) : strip s <+: s.dropWhile isspace := by
  rw [← List.reverse_suffix, strip, List.reverse_reverse]
  exact List.dropWhile_suffix isspace

/-- A byte that is no blank survives. -/
theorem mem_strip {s : Bytes} {b : UInt8} (hb : b ∈ s) (hs : isspace b = false) : b ∈ strip s := by
  have hdrop : ∀ {t : Bytes}, b ∈ t → b ∈ t.dropWhile isspace := by
    intro t ht
    rw [← List.takeWhile_append_dropWhile (p := isspace) (l := t)] at ht
    rcases List.mem_append.mp ht with h | h
    · exact absurd (List.mem_takeWhile_imp h) (by simp [hs])
    · exact h
  exact List.mem_reverse.mpr (hdrop (List.mem_reverse.mpr (hdrop hb)))

theorem length_strip_le (s : Bytes) : (strip s).length ≤ s.length := by
  have h : ∀ t : Bytes, (t.dropWhile isspace).length ≤ t.length := fun t =>
    (List.dropWhile_suffix isspace).length_le
  calc (strip s).length = ((s.dropWhile isspace).reverse.dropWhile isspace).length := by
        simp [strip]
    _ ≤ (s.dropWhile isspace).reverse.length := h _
    _ ≤ s.length := by simpa using h s

theorem dropWhile_eq_nil {s : Bytes} : s.dropWhile isspace = [] ↔ Blank s :=
  List.dropWhile_eq_nil_iff

theorem strip_eq_nil {s : Bytes} : strip s = [] ↔ Blank s := by
  rw [strip, List.reverse_eq_nil_iff, dropWhile_eq_nil]
  constructor
  · intro h b hb
    by_contra hspace
    have hmem := mem_strip hb (Bool.eq_false_iff.mpr hspace)
    rw [strip, List.mem_reverse, dropWhile_eq_nil.mpr h] at hmem
    cases hmem
  · intro h b hb
    exact h b ((List.dropWhile_suffix isspace).subset (List.mem_reverse.mp hb))

/-- A text without blanks stays as it is. -/
theorem strip_inked {s : Bytes} (h : ∀ b ∈ s, isspace b = false) : strip s = s := by
  have hdrop : ∀ t : Bytes, (∀ b ∈ t, isspace b = false) → t.dropWhile isspace = t := by
    intro t ht
    cases t with
    | nil => rfl
    | cons b t =>
        exact List.dropWhile_cons_of_neg (Bool.eq_false_iff.mp (ht b List.mem_cons_self))
  rw [strip, hdrop s h, hdrop s.reverse fun b hb => h b (List.mem_reverse.mp hb),
    List.reverse_reverse]

theorem strip_blank_append {s : Bytes} (h : Blank s) (t : Bytes) : strip (s ++ t) = strip t := by
  rw [strip, List.dropWhile_append_of_pos h, ← strip]

theorem strip_append_blank (s : Bytes) {t : Bytes} (h : Blank t) : strip (s ++ t) = strip s := by
  have hback : Blank t.reverse := fun b hb => h b (List.mem_reverse.mp hb)
  rw [strip, List.dropWhile_append]
  split
  next hs =>
    rw [List.isEmpty_iff] at hs
    rw [dropWhile_eq_nil.mpr h, strip, hs]
  next => rw [List.reverse_append, List.dropWhile_append_of_pos hback, ← strip]

/-- A text begins with its first byte that is no blank. -/
theorem head_strip (s : Bytes) : (strip s).head? = (s.dropWhile isspace).head? := by
  by_cases hblank : Blank s
  · rw [strip_eq_nil.mpr hblank, dropWhile_eq_nil.mpr hblank]
  · obtain ⟨t, ht⟩ := strip_isPrefix s
    cases hs : strip s with
    | nil => exact absurd (strip_eq_nil.mp hs) hblank
    | cons b k =>
        rw [← ht, hs]
        rfl

theorem head_strip_append {s : Bytes} (h : ¬ Blank s) (t : Bytes) :
    (strip (s ++ t)).head? = (strip s).head? := by
  have hne : s.dropWhile isspace ≠ [] := mt dropWhile_eq_nil.mp h
  rw [head_strip, head_strip, List.dropWhile_append,
    if_neg fun hs => hne (List.isEmpty_iff.mp hs)]
  exact List.head?_append_of_ne_nil _ hne

@[simp] theorem ink_append (s t : Bytes) : ink (s ++ t) = ink s + ink t := List.countP_append

theorem ink_eq_zero {s : Bytes} : ink s = 0 ↔ Blank s := by
  rw [ink, List.countP_eq_zero]
  simp only [Bool.not_eq_true', Bool.not_eq_false]
  exact Iff.rfl

theorem ink_dropWhile (s : Bytes) : ink (s.dropWhile isspace) = ink s := by
  have hfront : Blank (s.takeWhile isspace) := fun b hb => List.mem_takeWhile_imp hb
  have happ := ink_append (s.takeWhile isspace) (s.dropWhile isspace)
  rw [List.takeWhile_append_dropWhile, ink_eq_zero.mpr hfront, Nat.zero_add] at happ
  exact happ.symm

/-- Only blanks go. -/
theorem ink_strip (s : Bytes) : ink (strip s) = ink s := by
  have hreverse : ∀ t : Bytes, ink t.reverse = ink t := fun t => List.countP_reverse
  rw [strip, hreverse, ink_dropWhile, hreverse, ink_dropWhile]

/-! ### Around a byte -/

theorem strip_dropWhile (s : Bytes) : strip (s.dropWhile isspace) = strip s := by
  rw [strip, dropWhile_dropWhile, ← strip]

/-- The blanks behind are gone. -/
theorem strip_reverse_dropWhile (s : Bytes) : strip (s.reverse.dropWhile isspace).reverse = strip s := by
  have hback : Blank (s.reverse.takeWhile isspace).reverse := fun b hb =>
    List.mem_takeWhile_imp (List.mem_reverse.mp hb)
  have hsplit : (s.reverse.dropWhile isspace).reverse ++ (s.reverse.takeWhile isspace).reverse = s := by
    rw [← List.reverse_append, List.takeWhile_append_dropWhile, List.reverse_reverse]
  rw [← strip_append_blank _ hback, hsplit]

@[simp] theorem strip_strip (s : Bytes) : strip (strip s) = strip s := by
  conv_lhs => rw [strip.eq_1 s, strip_reverse_dropWhile, strip_dropWhile]

theorem dropWhile_around {b : UInt8} (hb : isspace b = false) (s t : Bytes) :
    (s ++ b :: t).dropWhile isspace = s.dropWhile isspace ++ b :: t := by
  induction s with
  | nil => exact List.dropWhile_cons_of_neg (Bool.eq_false_iff.mp hb)
  | cons a s ih =>
      by_cases ha : isspace a = true
      · rw [List.cons_append, List.dropWhile_cons_of_pos ha, List.dropWhile_cons_of_pos ha, ih]
      · rw [List.cons_append, List.dropWhile_cons_of_neg ha, List.dropWhile_cons_of_neg ha]
        rfl

/-- What is stripped away is before or behind a byte that is no blank. -/
theorem strip_around {b : UInt8} (hb : isspace b = false) (s t : Bytes) :
    strip (s ++ b :: t) =
      s.dropWhile isspace ++ b :: (t.reverse.dropWhile isspace).reverse := by
  rw [strip, dropWhile_around hb, List.reverse_append, List.reverse_cons, List.append_assoc,
    List.singleton_append, dropWhile_around hb, List.reverse_append, List.reverse_cons,
    List.reverse_reverse, List.append_assoc]
  rfl

end Libc
