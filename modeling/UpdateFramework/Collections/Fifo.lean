import Mathlib.Data.List.Infix

/-!
# Collections — a bounded queue that can be closed

A queue holds at most `capacity` elements and gives them out in the order they came in.  Once it is
closed it takes no more, and gives out what it holds.  A taker that finds an open queue empty waits,
and looks again at any later time.

What has been taken, followed by what is held, is what was put in (`Fifo.Run.conserved`).
-/

namespace Collections

variable {α : Type}

structure Fifo (α : Type) where
  held : List α
  closed : Bool

/-- What a taker finds. -/
inductive Taken (α : Type) where
  | waits
  | item (x : α)
  | stopped
  deriving DecidableEq

inductive FifoEvent (α : Type) where
  /-- An element is put in, or refused. -/
  | put (x : α) (ok : Bool)
  | take (r : Taken α)
  | close

namespace Fifo

inductive Step (capacity : ℕ) : Fifo α → FifoEvent α → Fifo α → Prop where
  | put {q : Fifo α} (x : α) (hopen : q.closed = false) (hroom : q.held.length < capacity) :
      Step capacity q (.put x true) { q with held := q.held ++ [x] }
  | refuse {q : Fifo α} (x : α) (h : q.closed = true ∨ capacity ≤ q.held.length) :
      Step capacity q (.put x false) q
  | wait : Step capacity ⟨[], false⟩ (.take .waits) ⟨[], false⟩
  | take (x : α) (xs : List α) (closed : Bool) :
      Step capacity ⟨x :: xs, closed⟩ (.take (.item x)) ⟨xs, closed⟩
  | stop : Step capacity ⟨[], true⟩ (.take .stopped) ⟨[], true⟩
  | close {q : Fifo α} : Step capacity q .close { q with closed := true }

/-- A run from the empty open queue, and its events. -/
inductive Run (capacity : ℕ) : List (FifoEvent α) → Fifo α → Prop where
  | start : Run capacity [] ⟨[], false⟩
  | step {evs : List (FifoEvent α)} {q q' : Fifo α} {ev : FifoEvent α}
      (h : Run capacity evs q) (hs : Step capacity q ev q') : Run capacity (evs ++ [ev]) q'

end Fifo

/-- The elements put in, in order. -/
def putIn (evs : List (FifoEvent α)) : List α :=
  evs.filterMap fun
    | .put x true => some x
    | _ => none

/-- The elements taken out, in order. -/
def takenOut (evs : List (FifoEvent α)) : List α :=
  evs.filterMap fun
    | .take (.item x) => some x
    | _ => none

namespace Fifo

variable {capacity : ℕ} {q q' : Fifo α} {evs : List (FifoEvent α)}

theorem putIn_snoc (evs : List (FifoEvent α)) (ev : FifoEvent α) :
    putIn (evs ++ [ev]) = putIn evs ++ putIn [ev] :=
  List.filterMap_append

theorem takenOut_snoc (evs : List (FifoEvent α)) (ev : FifoEvent α) :
    takenOut (evs ++ [ev]) = takenOut evs ++ takenOut [ev] :=
  List.filterMap_append

/-- What a step takes out and leaves is what was held and is put in. -/
theorem Step.conserved {ev : FifoEvent α} (h : Step capacity q ev q') :
    takenOut [ev] ++ q'.held = q.held ++ putIn [ev] := by
  cases h with
  | put x hopen hroom => rfl
  | refuse x h => exact (List.append_nil _).symm
  | wait => rfl
  | take x xs closed => exact (List.append_nil _).symm
  | stop => rfl
  | close => exact (List.append_nil _).symm

/-- **Nothing is lost, duplicated or reordered.** -/
theorem Run.conserved (h : Run capacity evs q) : takenOut evs ++ q.held = putIn evs := by
  induction h with
  | start => rfl
  | step h hs ih =>
      rw [takenOut_snoc, putIn_snoc, List.append_assoc, hs.conserved, ← List.append_assoc, ih]

/-- A queue is closed once it has been closed. -/
theorem Run.closed_iff (h : Run capacity evs q) : q.closed = true ↔ FifoEvent.close ∈ evs := by
  induction h with
  | start => simp
  | step h hs ih =>
      cases hs with
      | close => simp
      | put x hopen hroom => simpa using ih
      | refuse x h => simpa using ih
      | wait => simpa using ih
      | take x xs closed => simpa using ih
      | stop => simpa using ih

end Fifo

end Collections
