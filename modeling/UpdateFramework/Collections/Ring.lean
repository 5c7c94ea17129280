import Mathlib.Data.List.Rotate
import Mathlib.Data.Nat.ModEq

/-!
# Collections — a ring of cells

A list of cells used as a ring: the `count` cells from `head` on, around the end, are what the ring
holds (`ringContents`).  Writing the cell after them adds an element at the end, advancing `head`
takes one off the front, and doing both in a full ring keeps the newest.
-/

namespace Collections

variable {α : Type} {items : List α} {head count : ℕ}

/-- What the ring holds, the oldest first. -/
def ringContents (items : List α) (head count : ℕ) : List α := (items.rotate head).take count

@[simp] theorem ringContents_zero (items : List α) (head : ℕ) : ringContents items head 0 = [] :=
  List.take_zero

@[simp] theorem ringContents_mod (items : List α) (head count : ℕ) :
    ringContents items (head % items.length) count = ringContents items head count := by
  rw [ringContents, List.rotate_mod, ringContents]

theorem length_ringContents (h : count ≤ items.length) :
    (ringContents items head count).length = count := by
  rw [ringContents, List.length_take, List.length_rotate, Nat.min_eq_left h]

theorem getElem?_ringContents {i : ℕ} (hi : i < count) (h : count ≤ items.length) :
    (ringContents items head count)[i]? = items[(i + head) % items.length]? := by
  rw [ringContents, List.getElem?_take_of_lt hi, List.getElem?_rotate (Nat.lt_of_lt_of_le hi h)]

/-- The cell of one index in use is that of no other. -/
theorem ring_index_ne {n i j : ℕ} (hi : i < j) (hj : j < n) (head : ℕ) :
    (i + head) % n ≠ (j + head) % n := by
  intro h
  have hmod : i ≡ j [MOD n] := Nat.ModEq.add_right_cancel' head h
  rw [Nat.ModEq, Nat.mod_eq_of_lt (Nat.lt_trans hi hj), Nat.mod_eq_of_lt hj] at hmod
  exact Nat.ne_of_lt hi hmod

/-- Writing the cell behind the last adds to the end. -/
theorem ringContents_push (items : List α) (head : ℕ) (h : count < items.length) (x : α) :
    ringContents (items.set ((head + count) % items.length) x) head (count + 1) =
      ringContents items head count ++ [x] := by
  have hpos : 0 < items.length := Nat.lt_of_le_of_lt (Nat.zero_le _) h
  have hset : count + 1 ≤ (items.set ((head + count) % items.length) x).length := by
    rw [List.length_set]
    exact h
  refine List.ext_getElem? fun i => ?_
  rcases Nat.lt_trichotomy i count with hi | rfl | hi
  · rw [getElem?_ringContents (Nat.lt_succ_of_lt hi) hset, List.length_set, List.getElem?_set_ne,
      List.getElem?_append_left, getElem?_ringContents hi (Nat.le_of_lt h)]
    · rw [length_ringContents (Nat.le_of_lt h)]
      exact hi
    · rw [Nat.add_comm head]
      exact (ring_index_ne hi h head).symm
  · rw [getElem?_ringContents (Nat.lt_succ_self i) hset, List.length_set, Nat.add_comm head,
      List.getElem?_set_self (Nat.mod_lt _ hpos), List.getElem?_append_right,
      length_ringContents (Nat.le_of_lt h), Nat.sub_self]
    · rfl
    · exact Nat.le_of_eq (length_ringContents (Nat.le_of_lt h))
  · rw [List.getElem?_eq_none, List.getElem?_eq_none]
    · rw [List.length_append, length_ringContents (Nat.le_of_lt h)]
      exact hi
    · rw [length_ringContents hset]
      exact hi

/-- The first cell in use, and what is left when the head has moved past it. -/
theorem ringContents_pop (items : List α) (head : ℕ) (h : count < items.length) :
    ∃ x, items[head % items.length]? = some x ∧
      ringContents items head (count + 1) =
        x :: ringContents items ((head + 1) % items.length) count := by
  have hpos : 0 < items.length := Nat.lt_of_le_of_lt (Nat.zero_le _) h
  have hhead : head % items.length < items.length := Nat.mod_lt _ hpos
  refine ⟨items[head % items.length], List.getElem?_eq_getElem hhead, ?_⟩
  refine List.ext_getElem? fun i => ?_
  cases i with
  | zero =>
      rw [getElem?_ringContents (Nat.succ_pos count) h, Nat.zero_add, List.getElem?_cons_zero]
      exact List.getElem?_eq_getElem hhead
  | succ i =>
      rw [List.getElem?_cons_succ, ringContents_mod]
      by_cases hi : i < count
      · rw [getElem?_ringContents (Nat.succ_lt_succ hi) h,
          getElem?_ringContents hi (Nat.le_of_lt h), Nat.add_right_comm i 1 head, Nat.add_assoc]
      · have hi := Nat.le_of_not_lt hi
        rw [List.getElem?_eq_none, List.getElem?_eq_none]
        · exact (length_ringContents (Nat.le_of_lt h)).trans_le hi
        · exact (length_ringContents h).trans_le (Nat.succ_le_succ hi)

/-- Writing over the oldest cell of a full ring. -/
theorem ringContents_overwrite (hpos : 0 < items.length) (x : α) :
    ringContents (items.set (head % items.length) x) ((head + 1) % items.length) items.length =
      (ringContents items head items.length).tail ++ [x] := by
  obtain ⟨n, hn⟩ : ∃ n, items.length = n + 1 := Nat.exists_eq_succ_of_ne_zero (Nat.ne_of_gt hpos)
  have hlt : n < items.length := hn ▸ Nat.lt_succ_self n
  obtain ⟨y, -, hpop⟩ := ringContents_pop items head hlt
  have hidx : (head + 1 + n) % items.length = head % items.length := by
    rw [Nat.add_assoc, Nat.add_comm 1 n, ← hn, Nat.add_mod_right]
  have hpush := ringContents_push items (head + 1) hlt x
  have hfull : ringContents items head items.length = ringContents items head (n + 1) := by rw [hn]
  have hmod : ringContents (items.set (head % items.length) x) ((head + 1) % items.length)
      items.length = ringContents (items.set (head % items.length) x) (head + 1) items.length := by
    have h := ringContents_mod (items.set (head % items.length) x) (head + 1) items.length
    rwa [List.length_set] at h
  rw [hidx, ← hn] at hpush
  rw [hfull, hpop, List.tail_cons, ringContents_mod, ← hpush, hmod]

/-- The newest of what a ring holds begin further on. -/
theorem ringContents_newest (items : List α) (head : ℕ) {k : ℕ} (hk : k ≤ count)
    (h : count ≤ items.length) :
    ringContents items (head + (count - k)) k =
      (ringContents items head count).drop (count - k) := by
  refine List.ext_getElem? fun i => ?_
  rw [List.getElem?_drop]
  by_cases hi : i < k
  · have hlast : count - k + i < count := by omega
    rw [getElem?_ringContents hi (hk.trans h), getElem?_ringContents hlast h,
      Nat.add_comm (count - k) i, Nat.add_assoc i, Nat.add_comm head]
  · have hi := Nat.le_of_not_lt hi
    rw [List.getElem?_eq_none, List.getElem?_eq_none]
    · rw [length_ringContents h]
      omega
    · rw [length_ringContents (hk.trans h)]
      exact hi

/-- What a ring holds, read cell by cell. -/
theorem ringContents_eq_map (hpos : 0 < items.length) (h : count ≤ items.length) (x : α) :
    ringContents items head count =
      (List.range count).map fun i => items.getD ((head + i) % items.length) x := by
  refine List.ext_getElem? fun i => ?_
  by_cases hi : i < count
  · have hcell : (i + head) % items.length < items.length := Nat.mod_lt _ hpos
    rw [getElem?_ringContents hi h, List.getElem?_map, List.getElem?_range hi, Option.map_some,
      Nat.add_comm head i, List.getD_eq_getElem?_getD, List.getElem?_eq_getElem hcell,
      Option.getD_some]
  · have hi := Nat.le_of_not_lt hi
    rw [List.getElem?_eq_none, List.getElem?_eq_none]
    · rw [List.length_map, List.length_range]
      exact hi
    · rw [length_ringContents h]
      exact hi

end Collections
