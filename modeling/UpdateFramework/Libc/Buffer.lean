import Mathlib.Data.List.TakeWhile
import UpdateFramework.Libc.Text

/-!
# Libc — a buffer of fixed size

A computation that stores bytes into one buffer (`Storing`).  It has no outcome where it stores at
an index the buffer does not have.  Bytes stored one after another take the place of as many
(`storeAll_run`), and a text with a NUL after it is the C string of its buffer
(`cstr_of_terminated`).
-/

namespace Libc

/-- What a computation returns, and what it leaves in the buffer. -/
abbrev Storing (α : Type) := StateT Bytes Option α

/-- `buf[i] = b` -/
def storeAt (i : ℕ) (b : UInt8) : Storing Unit := fun buf =>
  if i < buf.length then some ((), buf.set i b) else none

/-- `bs` from the index `i` on. -/
def storeAll : ℕ → Bytes → Storing Unit
  | _, [] => pure ()
  | i, b :: bs => do
    storeAt i b
    storeAll (i + 1) bs

/-- `buf` with `bs` in the place of what it held from `i` on. -/
def overwrite (buf : Bytes) (i : ℕ) (bs : Bytes) : Bytes :=
  buf.take i ++ bs ++ buf.drop (i + bs.length)

@[simp] theorem overwrite_nil (buf : Bytes) (i : ℕ) : overwrite buf i [] = buf := by
  rw [overwrite, List.append_nil, List.length_nil, Nat.add_zero, List.take_append_drop]

theorem length_overwrite {buf : Bytes} {i : ℕ} {bs : Bytes} (h : i + bs.length ≤ buf.length) :
    (overwrite buf i bs).length = buf.length := by
  rw [overwrite, List.length_append, List.length_append, List.length_take, List.length_drop,
    Nat.min_eq_left (Nat.le_trans (Nat.le_add_right _ _) h)]
  exact Nat.add_sub_of_le h

/-- What is stored next goes behind what is stored already. -/
theorem overwrite_append {buf : Bytes} {i : ℕ} {bs : Bytes} (h : i + bs.length ≤ buf.length)
    (cs : Bytes) :
    overwrite (overwrite buf i bs) (i + bs.length) cs = overwrite buf i (bs ++ cs) := by
  have htake : (buf.take i ++ bs).length = i + bs.length := by
    rw [List.length_append, List.length_take,
      Nat.min_eq_left (Nat.le_trans (Nat.le_add_right _ _) h)]
  have hfront : (overwrite buf i bs).take (i + bs.length) = buf.take i ++ bs := by
    rw [overwrite, ← htake, List.take_left]
  have hback : (overwrite buf i bs).drop (i + bs.length + cs.length) =
      buf.drop (i + (bs ++ cs).length) := by
    rw [overwrite, List.drop_append, htake, List.drop_eq_nil_of_le (by rw [htake]; exact Nat.le_add_right _ _),
      List.nil_append, List.drop_drop, List.length_append]
    congr 1
    omega
  rw [overwrite, hfront, hback, overwrite, List.append_assoc (buf.take i)]

theorem overwrite_singleton {buf : Bytes} {i : ℕ} (h : i < buf.length) (b : UInt8) :
    overwrite buf i [b] = buf.set i b := by
  rw [overwrite, List.set_eq_take_append_cons_drop, if_pos h, List.append_assoc]
  rfl

theorem storeAt_run {buf : Bytes} {i : ℕ} (h : i < buf.length) (b : UInt8) :
    storeAt i b buf = some ((), overwrite buf i [b]) := by
  rw [storeAt, if_pos h, overwrite_singleton h]

/-- Bytes that fit are stored. -/
theorem storeAll_run {buf : Bytes} {i : ℕ} {bs : Bytes} (h : i + bs.length ≤ buf.length) :
    storeAll i bs buf = some ((), overwrite buf i bs) := by
  induction bs generalizing buf i with
  | nil =>
      rw [overwrite_nil]
      rfl
  | cons b bs ih =>
      rw [List.length_cons] at h
      have hone : i + [b].length ≤ buf.length := by
        rw [List.length_singleton]
        omega
      have hnext : i + 1 + bs.length ≤ (overwrite buf i [b]).length := by
        rw [length_overwrite hone]
        omega
      have hrest := ih hnext
      have happend := overwrite_append hone bs
      rw [List.length_singleton] at happend
      rw [happend] at hrest
      simp only [storeAll, bind, StateT.bind, storeAt_run hone, Option.bind_some]
      exact hrest

theorem overwrite_start {buf bs : Bytes} : bs <+: overwrite buf 0 bs := by
  rw [overwrite, List.take_zero, List.nil_append]
  exact List.prefix_append _ _

/-- Where the NUL is already, storing it changes nothing. -/
theorem storeAt_terminated {buf text : Bytes} (h : text ++ [0] <+: buf) :
    storeAt text.length 0 buf = some ((), buf) := by
  obtain ⟨rest, rfl⟩ := h
  have hlen : text.length < (text ++ [0] ++ rest).length := by
    simp only [List.length_append, List.length_singleton]
    omega
  rw [storeAt, if_pos hlen, List.append_assoc, List.set_append_right _ _ (Nat.le_refl _),
    Nat.sub_self]
  rfl

/-- A text with a NUL after it is all that is read of its buffer. -/
theorem cstr_of_terminated {buf text : Bytes} (h : text ++ [0] <+: buf) : cstr buf = cstr text := by
  obtain ⟨rest, rfl⟩ := h
  rw [List.append_assoc, cstr, cstr, List.takeWhile_append]
  split
  · rename_i hall
    have hself := (List.takeWhile_prefix fun b : UInt8 => decide (b ≠ 0)).eq_of_length hall
    rw [List.singleton_append, List.takeWhile_cons_of_neg (by decide), List.append_nil, hself]
  · rfl

end Libc
