import Mathlib.Algebra.Order.Floor.Div
import Mathlib.Data.List.Basic

/-!
# Collections — chunks

A list cut into whole chunks of `n`, and what is left.  A machine that takes its input in one item
at a time, and works on its buffer whenever it is full, has worked on the chunks and holds what is
left (`foldl_absorb`), however its input is cut.

`cut n l` is `l` in parts of `n` items, with what is left as a last and shorter part.
-/

namespace Collections

variable {α β σ : Type} {n : ℕ}

/-- The whole chunks of a list. -/
def chunks (n : ℕ) (l : List α) : List (List α) :=
  if 0 < n ∧ n ≤ l.length then l.take n :: chunks n (l.drop n) else []
  termination_by l.length
  decreasing_by
    rw [List.length_drop]
    omega

/-- What is left after them. -/
def remainder (n : ℕ) (l : List α) : List α := l.drop (n * (l.length / n))

theorem chunks_short {l : List α} (h : l.length < n) : chunks n l = [] := by
  rw [chunks, if_neg fun hn => Nat.not_lt.mpr hn.2 h]

theorem remainder_short {l : List α} (h : l.length < n) : remainder n l = l := by
  rw [remainder, Nat.div_eq_of_lt h, Nat.mul_zero, List.drop_zero]

/-- The first chunk. -/
theorem chunks_chunk_append {c : List α} (hn : 0 < n) (hc : c.length = n) (l : List α) :
    chunks n (c ++ l) = c :: chunks n l := by
  have hle : n ≤ (c ++ l).length := by
    rw [List.length_append, hc]
    exact Nat.le_add_right n _
  rw [chunks, if_pos ⟨hn, hle⟩, List.take_left' hc, List.drop_left' hc]

theorem remainder_chunk_append {c : List α} (hn : 0 < n) (hc : c.length = n) (l : List α) :
    remainder n (c ++ l) = remainder n l := by
  have hdiv : (c ++ l).length / n = l.length / n + 1 := by
    rw [List.length_append, hc, Nat.add_div_left _ hn]
  rw [remainder, hdiv, Nat.mul_succ, Nat.add_comm, ← List.drop_drop, List.drop_left' hc, remainder]

/-- Induction over the chunks of a list. -/
@[elab_as_elim]
theorem chunkInduction (hn : 0 < n) {motive : List α → Prop}
    (short : ∀ l, l.length < n → motive l)
    (chunk : ∀ c l, c.length = n → motive l → motive (c ++ l)) (l : List α) : motive l := by
  induction hlen : l.length using Nat.strongRecOn generalizing l with
  | _ m ih =>
      by_cases hshort : l.length < n
      · exact short l hshort
      · have hle := Nat.not_lt.mp hshort
        have hc : (l.take n).length = n := List.length_take_of_le hle
        rw [← List.take_append_drop n l]
        refine chunk _ _ hc (ih _ ?_ _ rfl)
        rw [← hlen, List.length_drop]
        exact Nat.sub_lt (Nat.lt_of_lt_of_le hn hle) hn

theorem length_remainder_lt (hn : 0 < n) (l : List α) : (remainder n l).length < n := by
  rw [remainder, List.length_drop, ← Nat.mod_eq_sub_mul_div]
  exact Nat.mod_lt _ hn

theorem length_chunks (hn : 0 < n) (l : List α) :
    n * (chunks n l).length + (remainder n l).length = l.length := by
  induction l using chunkInduction hn with
  | short l h =>
      rw [chunks_short h, remainder_short h, List.length_nil, Nat.mul_zero, Nat.zero_add]
  | chunk c l hc ih =>
      rw [chunks_chunk_append hn hc, remainder_chunk_append hn hc, List.length_cons, Nat.mul_succ,
        List.length_append, hc, ← ih]
      omega

theorem length_of_mem_chunks (hn : 0 < n) {l c : List α} (hc : c ∈ chunks n l) : c.length = n := by
  induction l using chunkInduction hn with
  | short l h =>
      rw [chunks_short h] at hc
      exact absurd hc List.not_mem_nil
  | chunk c' l hc' ih =>
      rw [chunks_chunk_append hn hc'] at hc
      rcases List.mem_cons.mp hc with rfl | hc
      · exact hc'
      · exact ih hc

/-- What is left of a list makes chunks with what follows it. -/
theorem chunks_append (hn : 0 < n) (l k : List α) :
    chunks n (l ++ k) = chunks n l ++ chunks n (remainder n l ++ k) := by
  induction l using chunkInduction hn with
  | short l h => rw [chunks_short h, remainder_short h, List.nil_append]
  | chunk c l hc ih =>
      rw [List.append_assoc, chunks_chunk_append hn hc, ih, chunks_chunk_append hn hc,
        remainder_chunk_append hn hc, List.cons_append]

/-- A list of one chunk. -/
theorem chunks_one (hn : 0 < n) {c : List α} (hc : c.length = n) : chunks n c = [c] := by
  have h := chunks_chunk_append hn hc []
  have hnil : chunks n ([] : List α) = [] := chunks_short hn
  rwa [List.append_nil, hnil] at h

/-- Chunks of what is made of each item in turn. -/
theorem chunks_flatMap {m : ℕ} (hn : 0 < n) {f : α → List β} (hm : 0 < m)
    (hf : ∀ a, (f a).length = m) (l : List α) :
    chunks (m * n) (l.flatMap f) = (chunks n l).map (·.flatMap f) := by
  have hlen : ∀ l : List α, (l.flatMap f).length = m * l.length := by
    intro l
    induction l with
    | nil => rfl
    | cons a l ih =>
        rw [List.flatMap_cons, List.length_append, hf, ih, List.length_cons, Nat.mul_succ,
          Nat.add_comm]
  induction l using chunkInduction hn with
  | short l h =>
      rw [chunks_short h, chunks_short (by rw [hlen]; exact Nat.mul_lt_mul_of_pos_left h hm)]
      rfl
  | chunk c l hc ih =>
      rw [List.flatMap_append, chunks_chunk_append (Nat.mul_pos hm hn) (by rw [hlen, hc]), ih,
        chunks_chunk_append hn hc, List.map_cons]

/-- An item more in the buffer, and the work on it when it is full. -/
def absorb (n : ℕ) (f : σ → List α → σ) (x : σ × List α) (a : α) : σ × List α :=
  if (x.2 ++ [a]).length = n then (f x.1 (x.2 ++ [a]), []) else (x.1, x.2 ++ [a])

/-- However the input comes, the work is done on its chunks. -/
theorem foldl_absorb (hn : 0 < n) (f : σ → List α → σ) (s : σ) {buffer : List α}
    (hb : buffer.length < n) (l : List α) :
    l.foldl (absorb n f) (s, buffer) =
      ((chunks n (buffer ++ l)).foldl f s, remainder n (buffer ++ l)) := by
  induction l generalizing s buffer with
  | nil =>
      rw [List.append_nil, chunks_short hb, remainder_short hb]
      rfl
  | cons a l ih =>
      have happ : buffer ++ a :: l = buffer ++ [a] ++ l := List.append_cons buffer a l
      rw [List.foldl_cons, absorb, happ]
      by_cases hfull : (buffer ++ [a]).length = n
      · rw [if_pos hfull, ih _ (by simpa using hn), chunks_chunk_append hn hfull,
          remainder_chunk_append hn hfull, List.foldl_cons, List.nil_append]
      · rw [if_neg hfull, ih]
        rw [List.length_append, List.length_singleton] at hfull ⊢
        exact Nat.lt_of_le_of_ne hb hfull

/-! ### Parts -/

/-- A list in parts of `n`, the last of which may be shorter. -/
def cut (n : ℕ) (l : List α) : List (List α) :=
  if 0 < n ∧ 0 < l.length then l.take n :: cut n (l.drop n) else []
  termination_by l.length
  decreasing_by
    rw [List.length_drop]
    omega

@[simp] theorem cut_nil : cut n ([] : List α) = [] := by
  rw [cut, if_neg fun h => Nat.lt_irrefl 0 h.2]

theorem cut_of_ne_nil (hn : 0 < n) {l : List α} (hl : l ≠ []) :
    cut n l = l.take n :: cut n (l.drop n) := by
  rw [cut, if_pos ⟨hn, List.length_pos_iff.mpr hl⟩]

/-- Induction over the parts of a list. -/
@[elab_as_elim]
theorem cutInduction (hn : 0 < n) {motive : List α → Prop} (nil : motive [])
    (part : ∀ l, l ≠ [] → motive (l.drop n) → motive l) (l : List α) : motive l := by
  induction hlen : l.length using Nat.strongRecOn generalizing l with
  | _ m ih =>
      by_cases hl : l = []
      · exact hl ▸ nil
      · refine part l hl (ih _ ?_ _ rfl)
        rw [← hlen, List.length_drop]
        exact Nat.sub_lt (List.length_pos_iff.mpr hl) hn

theorem cut_eq_nil (hn : 0 < n) {l : List α} : cut n l = [] ↔ l = [] := by
  constructor
  · intro h
    by_contra hl
    rw [cut_of_ne_nil hn hl] at h
    exact List.cons_ne_nil _ _ h
  · rintro rfl
    exact cut_nil

theorem flatten_cut (hn : 0 < n) (l : List α) : (cut n l).flatten = l := by
  induction l using cutInduction hn with
  | nil => rw [cut_nil, List.flatten_nil]
  | part l hl ih => rw [cut_of_ne_nil hn hl, List.flatten_cons, ih, List.take_append_drop]

theorem of_mem_cut (hn : 0 < n) {l p : List α} (hp : p ∈ cut n l) : p ≠ [] ∧ p.length ≤ n := by
  induction l using cutInduction hn with
  | nil =>
      rw [cut_nil] at hp
      exact absurd hp List.not_mem_nil
  | part l hl ih =>
      rw [cut_of_ne_nil hn hl] at hp
      rcases List.mem_cons.mp hp with rfl | hp
      · refine ⟨fun h => ?_, List.length_take_le ..⟩
        rcases List.take_eq_nil_iff.mp h with h | h
        · exact Nat.ne_of_gt hn h
        · exact hl h
      · exact ih hp

/-- As many parts as it takes. -/
theorem length_cut (hn : 0 < n) (l : List α) : (cut n l).length = l.length ⌈/⌉ n := by
  induction l using cutInduction hn with
  | nil => rw [cut_nil, List.length_nil, List.length_nil, zero_ceilDiv]
  | part l hl ih =>
      have hpos := List.length_pos_iff.mpr hl
      rw [cut_of_ne_nil hn hl, List.length_cons, ih, List.length_drop, Nat.ceilDiv_eq_add_pred_div,
        Nat.ceilDiv_eq_add_pred_div]
      rcases Nat.le_total l.length n with hle | hle
      · rw [Nat.sub_eq_zero_of_le hle, Nat.zero_add, Nat.div_eq_of_lt (Nat.sub_lt hn Nat.one_pos)]
        refine (Nat.div_eq_of_lt_le ?_ ?_).symm <;> omega
      · rw [← Nat.add_div_right _ hn]
        congr 1
        omega

end Collections
