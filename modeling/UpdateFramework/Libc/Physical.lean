import UpdateFramework.Libc.Blank
import UpdateFramework.Libc.Lines

/-!
# Libc — physical lines

`physicalLines s` is what stands between the newlines of `s`, and after the last one if that is
not nothing.  A text is either empty, a last line, or a line, a newline and a text
(`textInduction`); `fgets` returns a line that fits its buffer as it is (`textLines_newline`,
`textLines_unended`) and cuts one that does not into `pieces`.
-/

namespace Libc

/-- The lines of a text, without their newlines. -/
def physicalLines : Bytes → List Bytes
  | [] => []
  | b :: s =>
    if b = 10 then [] :: physicalLines s
    else
      match physicalLines s with
      | [] => [[b]]
      | l :: ls => (b :: l) :: ls

@[simp] theorem physicalLines_nil : physicalLines [] = [] := rfl

theorem physicalLines_newline {l : Bytes} (hl : 10 ∉ l) (s : Bytes) :
    physicalLines (l ++ 10 :: s) = l :: physicalLines s := by
  induction l with
  | nil => rfl
  | cons b l ih =>
      simp only [List.mem_cons, not_or] at hl
      rw [List.cons_append, physicalLines, if_neg (Ne.symm hl.1), ih hl.2]

theorem physicalLines_last {l : Bytes} (hne : l ≠ []) (hl : 10 ∉ l) : physicalLines l = [l] := by
  induction l with
  | nil => exact absurd rfl hne
  | cons b l ih =>
      simp only [List.mem_cons, not_or] at hl
      rw [physicalLines, if_neg (Ne.symm hl.1)]
      by_cases hnil : l = []
      · subst hnil
        rfl
      · rw [ih hnil hl.2]

/-- Induction over the lines of a text. -/
@[elab_as_elim]
theorem textInduction {motive : Bytes → Prop} (nil : motive [])
    (last : ∀ l, l ≠ [] → 10 ∉ l → motive l)
    (line : ∀ l s, 10 ∉ l → motive s → motive (l ++ 10 :: s)) (s : Bytes) : motive s := by
  induction hn : s.length using Nat.strong_induction_on generalizing s with
  | _ n ih =>
      by_cases hm : 10 ∈ s
      · obtain ⟨l, t, rfl, hl⟩ := List.eq_append_cons_of_mem hm
        refine line l t hl (ih t.length ?_ t rfl)
        rw [← hn, List.length_append, List.length_cons]
        exact Nat.lt_of_lt_of_le (Nat.lt_succ_self _) (Nat.le_add_left _ _)
      · by_cases hnil : s = []
        · exact hnil ▸ nil
        · exact last s hnil hm

/-- A line has no newline in it. -/
theorem newline_not_mem {s l : Bytes} (h : l ∈ physicalLines s) : 10 ∉ l := by
  induction s using textInduction with
  | nil => cases h
  | last k hne hk =>
      rw [physicalLines_last hne hk, List.mem_singleton] at h
      exact h ▸ hk
  | line k s hk ih =>
      rw [physicalLines_newline hk, List.mem_cons] at h
      rcases h with rfl | h
      · exact hk
      · exact ih h

/-- What stands in a line stands in the text. -/
theorem mem_of_mem_physicalLines {s l : Bytes} (h : l ∈ physicalLines s) {b : UInt8} (hb : b ∈ l) :
    b ∈ s := by
  induction s using textInduction with
  | nil => cases h
  | last k hne hk =>
      rw [physicalLines_last hne hk, List.mem_singleton] at h
      exact h ▸ hb
  | line k s hk ih =>
      rw [physicalLines_newline hk, List.mem_cons] at h
      rw [List.mem_append, List.mem_cons]
      rcases h with rfl | h
      · exact .inl hb
      · exact .inr (.inr (ih h))

/-- The lines of whole lines and of what follows them. -/
theorem physicalLines_flatten {ls : List Bytes} (hls : ∀ l ∈ ls, 10 ∉ l) (s : Bytes) :
    physicalLines ((ls.map (· ++ [10])).flatten ++ s) = ls ++ physicalLines s := by
  induction ls with
  | nil => rfl
  | cons l ls ih =>
      rw [List.map_cons, List.flatten_cons, List.append_assoc, List.append_assoc,
        List.singleton_append, physicalLines_newline (hls l List.mem_cons_self),
        ih fun k hk => hls k (List.mem_cons_of_mem l hk)]
      rfl

/-! ### Lines that do not fit -/

/-- A line cut after every `n + 1` bytes. -/
def pieces (n : ℕ) (l : Bytes) : List Bytes :=
  if l.length ≤ n then [l] else l.take (n + 1) :: pieces n (l.drop (n + 1))
  termination_by l.length
  decreasing_by
    rw [List.length_drop]
    omega

theorem pieces_fits {n : ℕ} {l : Bytes} (h : l.length ≤ n) : pieces n l = [l] := by
  rw [pieces, if_pos h]

theorem pieces_long {n : ℕ} {l : Bytes} (h : n < l.length) :
    pieces n l = l.take (n + 1) :: pieces n (l.drop (n + 1)) := by
  rw [pieces, if_neg (Nat.not_le.mpr h)]

@[simp] theorem pieces_flatten (n : ℕ) (l : Bytes) : (pieces n l).flatten = l := by
  fun_induction pieces n l with
  | case1 l h => exact List.append_nil l
  | case2 l h ih => rw [List.flatten_cons, ih, List.take_append_drop]

/-- What stands in a piece stands in the line. -/
theorem mem_of_mem_pieces {n : ℕ} {l piece : Bytes} (h : piece ∈ pieces n l) {b : UInt8}
    (hb : b ∈ piece) : b ∈ l := by
  rw [← pieces_flatten n l]
  exact List.mem_flatten_of_mem h hb

end Libc
